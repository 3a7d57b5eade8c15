import Mathlib.Data.List.Nodup
import MarketFeed.Proofs.Relay.Steps
import MarketFeed.Proofs.Tasks.Lock
import MarketFeed.Proofs.Tasks.Numbered

/-!
# MarketFeed.Proofs.Relay.Locks

The two locks of a client, over every order in which its calls go on.

* `Serves` — a lock fits the calls: those that ask for it stand in its queue, once each, and
  those that rely on holding it stand first.
* `Locked` — both locks of a client fit its calls. `Reachable.locked`: they always do.
* `Locked.ownsDial_unique`, `Locked.eq_of_ownsSession` — at most one call relies on a lock.
-/

namespace MarketFeed
namespace Relay

/-! ## What the stages ask for -/

/-- The call stands in the queue of the dialling lock. -/
def Stage.inDial : Stage → Bool
  | .beforeSending | .sending _ | .subscribing .. | .finished _ => false
  | _ => true

/-- The call relies on holding the dialling lock. -/
def Stage.ownsDial : Stage → Bool
  | .beforeInspection | .dialling | .loggingOn .. | .beforeInstallation _ | .tearingDown _
  | .closing => true
  | _ => false

/-- The call stands in the queue of the session's lock. -/
def Stage.inSession : Stage → Bool
  | .beforeInspection | .beforeInstallation _ | .beforeSending | .sending _ | .subscribing ..
  | .tearingDown _ | .closing => true
  | _ => false

def restage (calls : List Call) (id : Nat) (stage : Stage) : List Call :=
  calls.map fun k => if k.id = id then { k with stage } else k

theorem mem_restage {calls : List Call} {id : Nat} {stage : Stage} {j : Call} :
    j ∈ restage calls id stage ↔
      (j ∈ calls ∧ j.id ≠ id) ∨ ∃ i ∈ calls, i.id = id ∧ j = { i with stage } := by
  simp only [restage, List.mem_map]
  constructor
  · rintro ⟨i, hi, rfl⟩
    by_cases h : i.id = id
    · rw [if_pos h]; exact .inr ⟨i, hi, h, rfl⟩
    · rw [if_neg h]; exact .inl ⟨hi, h⟩
  · rintro (⟨hj, h⟩ | ⟨i, hi, h, rfl⟩)
    · exact ⟨j, hj, if_neg h⟩
    · exact ⟨i, hi, if_pos h⟩

theorem map_id_restage (calls : List Call) (id : Nat) (stage : Stage) :
    (restage calls id stage).map Call.id = calls.map Call.id :=
  map_number_update Call.id fun _ h => h

theorem restage_restage (calls : List Call) (id : Nat) (st st' : Stage) :
    restage (restage calls id st) id st' = restage calls id st' := by
  simp only [restage, List.map_map]
  apply List.map_congr_left
  intro k _
  simp only [Function.comp_apply]
  by_cases h : k.id = id <;> simp [h]

/-- A call with a new number is set on its way. -/
theorem restage_concat {calls : List Call} {id : Nat} (h : ∀ k ∈ calls, k.id < id) (task : Task)
    (st st' : Stage) : restage (calls ++ [⟨id, task, st⟩]) id st' = calls ++ [⟨id, task, st'⟩] := by
  have hold : restage calls id st' = calls := by
    rw [restage]
    conv_rhs => rw [← List.map_id calls]
    apply List.map_congr_left
    intro k hk
    rw [if_neg (Nat.ne_of_lt (h k hk))]
    rfl
  simp only [restage, List.map_append] at hold ⊢
  rw [hold]
  simp

theorem eq_of_id_eq {calls : List Call} (hu : (calls.map Call.id).Nodup) {i j : Call}
    (hi : i ∈ calls) (hj : j ∈ calls) (h : i.id = j.id) : i = j :=
  List.inj_on_of_nodup_map hu hi hj h

/-! ## A lock and its calls -/

structure Serves (l : Lock) (calls : List Call) (asks owns : Stage → Bool) : Prop where
  nodup : l.queue.Nodup
  mem_iff : ∀ id, id ∈ l.queue ↔ ∃ k ∈ calls, k.id = id ∧ asks k.stage = true
  head : ∀ k ∈ calls, owns k.stage = true → l.heldBy k.id = true

namespace Serves

variable {l : Lock} {calls : List Call} {asks owns : Stage → Bool} {k : Call} {st : Stage}

/-- A free lock serves no calls. -/
theorem free (asks owns : Stage → Bool) : Serves .free [] asks owns where
  nodup := List.nodup_nil
  mem_iff id := by simp [Lock.free]
  head k hk := by cases hk

/-- The call stays where it stands in the queue, be it outside. -/
theorem stay (h : Serves l calls asks owns) (hu : (calls.map Call.id).Nodup) (hk : k ∈ calls)
    (hw : asks st = asks k.stage) (ho : owns st = true → l.heldBy k.id = true) :
    Serves l (restage calls k.id st) asks owns where
  nodup := h.nodup
  mem_iff id := by
    rw [h.mem_iff]
    constructor
    · rintro ⟨i, hi, rfl, hw'⟩
      by_cases hik : i.id = k.id
      · have := eq_of_id_eq hu hi hk hik
        subst this
        exact ⟨_, mem_restage.2 (.inr ⟨i, hi, rfl, rfl⟩), rfl, hw.trans hw'⟩
      · exact ⟨i, mem_restage.2 (.inl ⟨hi, hik⟩), rfl, hw'⟩
    · rintro ⟨j, hj, rfl, hw'⟩
      rcases mem_restage.1 hj with ⟨hj, -⟩ | ⟨i, hi, hik, rfl⟩
      · exact ⟨j, hj, rfl, hw'⟩
      · exact ⟨k, hk, hik.symm, hw ▸ hw'⟩
  head j hj hoj := by
    rcases mem_restage.1 hj with ⟨hj, -⟩ | ⟨i, hi, hik, rfl⟩
    · exact h.head j hj hoj
    · simpa [hik] using ho hoj

theorem join (h : Serves l calls asks owns) (hu : (calls.map Call.id).Nodup) (hk : k ∈ calls)
    (hw : asks k.stage = false) (hs : asks st = true) (ho : owns st = false) :
    Serves (l.join k.id) (restage calls k.id st) asks owns where
  nodup := by
    have hout : k.id ∉ l.queue := by
      rw [h.mem_iff]
      rintro ⟨i, hi, hik, hwi⟩
      have := eq_of_id_eq hu hi hk hik
      subst this
      rw [hw] at hwi
      cases hwi
    simp only [Lock.join, List.nodup_append, h.nodup, true_and]
    refine ⟨by simp, ?_⟩
    intro a ha b hb
    rw [List.mem_singleton] at hb
    subst hb
    rintro rfl
    exact hout ha
  mem_iff id := by
    simp only [Lock.join, List.mem_append, List.mem_singleton, h.mem_iff]
    constructor
    · rintro (⟨i, hi, rfl, hwi⟩ | rfl)
      · by_cases hik : i.id = k.id
        · exact ⟨_, mem_restage.2 (.inr ⟨i, hi, hik, rfl⟩), rfl, hs⟩
        · exact ⟨i, mem_restage.2 (.inl ⟨hi, hik⟩), rfl, hwi⟩
      · exact ⟨_, mem_restage.2 (.inr ⟨k, hk, rfl, rfl⟩), rfl, hs⟩
    · rintro ⟨j, hj, rfl, hwj⟩
      rcases mem_restage.1 hj with ⟨hj, -⟩ | ⟨i, hi, hik, rfl⟩
      · exact .inl ⟨j, hj, rfl, hwj⟩
      · exact .inr hik
  head j hj hoj := by
    rcases mem_restage.1 hj with ⟨hj, -⟩ | ⟨i, hi, hik, rfl⟩
    · exact heldBy_join (h.head j hj hoj) _
    · rw [ho] at hoj; cases hoj

theorem leave (h : Serves l calls asks owns) (hs : asks st = false) (ho : owns st = false) :
    Serves (l.leave k.id) (restage calls k.id st) asks owns where
  nodup := h.nodup.filter _
  mem_iff id := by
    simp only [Lock.leave, List.mem_filter, h.mem_iff, decide_eq_true_eq]
    constructor
    · rintro ⟨⟨i, hi, rfl, hwi⟩, hik⟩
      exact ⟨i, mem_restage.2 (.inl ⟨hi, hik⟩), rfl, hwi⟩
    · rintro ⟨j, hj, rfl, hwj⟩
      rcases mem_restage.1 hj with ⟨hj, hjk⟩ | ⟨i, hi, hik, rfl⟩
      · exact ⟨⟨j, hj, rfl, hwj⟩, hjk⟩
      · rw [hs] at hwj; cases hwj
  head j hj hoj := by
    rcases mem_restage.1 hj with ⟨hj, hjk⟩ | ⟨i, hi, hik, rfl⟩
    · exact heldBy_leave (h.head j hj hoj) hjk
    · rw [ho] at hoj; cases hoj

/-- The call goes to the end of the queue. -/
theorem rejoin (h : Serves l calls asks owns) (hu : (calls.map Call.id).Nodup) (hk : k ∈ calls)
    (out : Stage) (hout : asks out = false) (hout' : owns out = false) (hs : asks st = true)
    (ho : owns st = false) :
    Serves ((l.leave k.id).join k.id) (restage calls k.id st) asks owns := by
  have hleft := h.leave (k := k) hout hout'
  have hk' : { k with stage := out } ∈ restage calls k.id out :=
    mem_restage.2 (.inr ⟨k, hk, rfl, rfl⟩)
  have hjoined : Serves ((l.leave k.id).join k.id) (restage (restage calls k.id out) k.id st)
      asks owns :=
    hleft.join (k := { k with stage := out }) (by rw [map_id_restage]; exact hu) hk' hout hs ho
  rwa [restage_restage] at hjoined

/-- A call that is gone has left the queue. -/
theorem erase (h : Serves l calls asks owns) :
    Serves (l.leave k.id) (calls.filter (·.id ≠ k.id)) asks owns where
  nodup := h.nodup.filter _
  mem_iff id := by
    simp only [Lock.leave, List.mem_filter, h.mem_iff, decide_eq_true_eq]
    constructor
    · rintro ⟨⟨i, hi, rfl, hwi⟩, hik⟩
      exact ⟨i, ⟨hi, hik⟩, rfl, hwi⟩
    · rintro ⟨i, ⟨hi, hik⟩, rfl, hwi⟩
      exact ⟨⟨i, hi, rfl, hwi⟩, hik⟩
  head j hj hoj := by
    simp only [List.mem_filter, decide_eq_true_eq] at hj
    exact heldBy_leave (h.head j hj.1 hoj) hj.2

/-- A call that asks for nothing can be forgotten. -/
theorem forget (h : Serves l calls asks owns) (hu : (calls.map Call.id).Nodup) (hk : k ∈ calls)
    (hw : asks k.stage = false) : Serves l (calls.filter (·.id ≠ k.id)) asks owns := by
  have hout : l.leave k.id = l := by
    simp only [Lock.leave]
    congr 1
    rw [List.filter_eq_self]
    intro i hi
    obtain ⟨j, hj, rfl, hwj⟩ := (h.mem_iff i).1 hi
    simp only [ne_eq, decide_eq_true_eq]
    intro hjk
    have := eq_of_id_eq hu hj hk hjk
    subst this
    rw [hw] at hwj
    cases hwj
  have herased := h.erase (k := k)
  rwa [hout] at herased

/-- A new call asks for nothing yet. -/
theorem add (h : Serves l calls asks owns) (hs : asks k.stage = false) (ho : owns k.stage = false) :
    Serves l (calls ++ [k]) asks owns where
  nodup := h.nodup
  mem_iff id := by
    rw [h.mem_iff]
    constructor
    · rintro ⟨i, hi, hid, hwi⟩
      exact ⟨i, List.mem_append_left _ hi, hid, hwi⟩
    · rintro ⟨i, hi, hid, hwi⟩
      rcases List.mem_append.1 hi with hi | hi
      · exact ⟨i, hi, hid, hwi⟩
      · rw [List.mem_singleton] at hi
        subst hi
        rw [hs] at hwi
        cases hwi
  head j hj hoj := by
    rcases List.mem_append.1 hj with hj | hj
    · exact h.head j hj hoj
    · rw [List.mem_singleton] at hj
      subst hj
      rw [ho] at hoj
      cases hoj

/-- Only the numbers and stages of the calls count. -/
theorem retask (h : Serves l calls asks owns) (id : Nat) (task : Task) :
    Serves l (calls.map fun k => if k.id = id then { k with task } else k) asks owns where
  nodup := h.nodup
  mem_iff i := by
    rw [h.mem_iff]
    constructor
    · rintro ⟨j, hj, hji, hwj⟩
      refine ⟨_, List.mem_map_of_mem hj, ?_⟩
      by_cases hid : j.id = id <;> simp [hid, ← hji, hwj]
    · simp only [List.mem_map]
      rintro ⟨_, ⟨j, hj, rfl⟩, hji, hwj⟩
      refine ⟨j, hj, ?_⟩
      by_cases hid : j.id = id <;> simp_all
  head j hj hoj := by
    simp only [List.mem_map] at hj
    obtain ⟨i, hi, rfl⟩ := hj
    have := h.head i hi
    by_cases hid : i.id = id <;> simp_all

end Serves

/-! ## The locks of a client -/

structure Locked (c : Client) : Prop where
  nodup : (c.calls.map Call.id).Nodup
  fresh : ∀ k ∈ c.calls, k.id < c.nextCall
  dial : Serves c.dialLock c.calls Stage.inDial Stage.ownsDial
  session : Serves c.sessionLock c.calls Stage.inSession Stage.ownsSession

namespace Client

/-- Dropping the session touches nothing but the session and its connection. -/
theorem dropSession_spec (c : Client) :
    ∃ xs, c.dropSession = { c with connections := xs, session := none } := by
  unfold dropSession
  split
  · exact ⟨_, rfl⟩
  · rename_i hs
    refine ⟨c.connections, ?_⟩
    rw [← hs]

theorem logOff_spec (c : Client) :
    ∃ xs, c.logOff = { c with connections := xs, session := none } := by
  unfold logOff
  split
  · rename_i hs
    refine ⟨c.connections, ?_⟩
    rw [← hs]
  · rename_i s hs
    rcases c.write_cases s.connection (.logoff "client closing") with ⟨x, x', -, -, he⟩ | ⟨e, he, -⟩
    · simp only [he]
      exact dropSession_spec _
    · simp only [he]
      exact dropSession_spec _

end Client

namespace Locked

variable {now : Nat} {k : Call} {c c' : Client}

/-- A step that only moves one call to another stage and lets it join or leave queues. -/
theorem restaged (h : Locked c) (st : Stage) (hc : c'.calls = restage c.calls k.id st)
    (hn : c'.nextCall = c.nextCall)
    (hd : Serves c'.dialLock (restage c.calls k.id st) Stage.inDial Stage.ownsDial)
    (hs : Serves c'.sessionLock (restage c.calls k.id st) Stage.inSession Stage.ownsSession) :
    Locked c' where
  nodup := by rw [hc, map_id_restage]; exact h.nodup
  fresh := by
    rw [hc, hn]
    intro j hj
    rcases mem_restage.1 hj with ⟨hj, -⟩ | ⟨i, hi, -, rfl⟩
    · exact h.fresh j hj
    · exact h.fresh i hi
  dial := by rw [hc]; exact hd
  session := by rw [hc]; exact hs

theorem retasked (h : Locked c) (id : Nat) (task : Task) : Locked (c.setTask id task) where
  nodup := by
    have hids : (c.setTask id task).calls.map Call.id = c.calls.map Call.id := by
      simp only [Client.setTask, List.map_map]
      apply List.map_congr_left
      intro k _
      simp only [Function.comp_apply]
      split <;> rfl
    rw [hids]
    exact h.nodup
  fresh := by
    intro j hj
    obtain ⟨i, hi, rfl⟩ := List.mem_map.1 hj
    have hi := h.fresh i hi
    split
    · exact hi
    · exact hi
  dial := h.dial.retask id task
  session := h.session.retask id task

/-- A call that has just left both queues fails, and may ask for the dialling lock once more. -/
theorem failed (h : Locked c) (hk : k ∈ c.calls) (e : RelayError)
    (hd : c'.dialLock = c.dialLock ∧ k.stage.inDial = false ∨ c'.dialLock = c.dialLock.leave k.id)
    (hs : c'.sessionLock = c.sessionLock ∧ k.stage.inSession = false ∨
      c'.sessionLock = c.sessionLock.leave k.id)
    (hc : c'.calls = c.calls) (hn : c'.nextCall = c.nextCall) : Locked (c'.failAttempt k e) := by
  have hsession : ∀ st : Stage, st.inSession = false → st.ownsSession = false →
      Serves c'.sessionLock (restage c.calls k.id st) Stage.inSession Stage.ownsSession := by
    intro st hst hot
    rcases hs with ⟨hs, hout⟩ | hs
    · rw [hs]
      exact h.session.stay h.nodup hk (hst.trans hout.symm) (by rw [hot]; nofun)
    · rw [hs]
      exact h.session.leave hst hot
  rw [Client.failAttempt_eq]
  split
  · refine h.restaged (.beforeTeardown e) (by rw [← hc]; rfl) hn ?_ (hsession _ rfl rfl)
    change Serves (c'.dialLock.join k.id) _ _ _
    rcases hd with ⟨hd, hout⟩ | hd
    · rw [hd]
      exact h.dial.join h.nodup hk hout rfl rfl
    · rw [hd]
      exact h.dial.rejoin h.nodup hk (.finished (.ok ())) rfl rfl rfl rfl
  · refine h.restaged (.finished (.error e)) (by rw [← hc]; rfl) hn ?_ (hsession _ rfl rfl)
    change Serves c'.dialLock _ _ _
    rcases hd with ⟨hd, hout⟩ | hd
    · rw [hd]
      exact h.dial.stay h.nodup hk hout.symm nofun
    · rw [hd]
      exact h.dial.leave rfl rfl

/-- A call that has found or made a live session leaves both queues, and a batch asks for the
session once more. -/
theorem connected (h : Locked c) (hk : k ∈ c.calls) (hd : c'.dialLock = c.dialLock)
    (hs : c'.sessionLock = c.sessionLock) (hc : c'.calls = c.calls)
    (hn : c'.nextCall = c.nextCall) : Locked (c'.connected k) := by
  unfold Client.connected
  split
  · refine h.restaged (k := k) .beforeSending (by rw [← hc]; rfl) hn ?_ ?_
    · change Serves (c'.dialLock.leave k.id) _ _ _
      rw [hd]
      exact h.dial.leave rfl rfl
    · change Serves ((c'.sessionLock.leave k.id).join k.id) _ _ _
      rw [hs]
      exact h.session.rejoin h.nodup hk (.finished (.ok ())) rfl rfl rfl rfl
  · refine h.restaged (k := k) (.finished (.ok ())) (by rw [← hc]; rfl) hn ?_ ?_
    · change Serves (c'.dialLock.leave k.id) _ _ _
      rw [hd]
      exact h.dial.leave rfl rfl
    · change Serves (c'.sessionLock.leave k.id) _ _ _
      rw [hs]
      exact h.session.leave rfl rfl

theorem goes (h : Locked c) (hk : k ∈ c.calls) (hg : Goes now k c c') : Locked c' := by
  cases hg with
  | enters hs hl =>
    exact h.restaged (k := k) _ rfl rfl
      (h.dial.stay h.nodup hk (by rw [hs]; rfl) (fun _ => hl))
      (h.session.join h.nodup hk (by rw [hs]; rfl) rfl rfl)
  | findsLive s hs hl hc ha => exact h.connected hk rfl rfl rfl rfl
  | findsNone hs hl ha =>
    obtain ⟨xs, hd⟩ := c.dropSession_spec
    rw [hd]
    exact h.restaged (k := k) _ rfl rfl
      (h.dial.stay h.nodup hk (by rw [hs]; rfl) (fun _ => h.dial.head k hk (by rw [hs]; rfl)))
      (h.session.leave rfl rfl)
  | refused hs hr =>
    exact h.failed (k := k) hk _ (.inr rfl) (.inl ⟨rfl, by rw [hs]; rfl⟩) rfl rfl
  | dials hs hr =>
    exact h.restaged (k := k) _ rfl rfl
      (h.dial.stay h.nodup hk (by rw [hs]; rfl) (fun _ => h.dial.head k hk (by rw [hs]; rfl)))
      (h.session.stay h.nodup hk (by rw [hs]; rfl) nofun)
  | hearsBeat n due x x' f d hs hx hn hd => exact ⟨h.nodup, h.fresh, h.dial, h.session⟩
  | welcomed n due x x' f v text hs hx hn hd =>
    exact h.restaged (k := k) _ rfl rfl
      (h.dial.stay h.nodup hk (by rw [hs]; rfl) (fun _ => h.dial.head k hk (by rw [hs]; rfl)))
      (h.session.join h.nodup hk (by rw [hs]; rfl) rfl rfl)
  | failsLogon n due x x' e hs hx hn hf =>
    exact h.failed (k := k) hk _ (.inr rfl) (.inl ⟨rfl, by rw [hs]; rfl⟩) rfl rfl
  | installs n hs hl =>
    obtain ⟨xs, hd⟩ := c.dropSession_spec
    rw [hd]
    exact h.connected hk rfl rfl rfl rfl
  | begins s batch again hs hl hc ha ht =>
    exact h.restaged (k := k) _ rfl rfl
      (h.dial.stay h.nodup hk (by rw [hs]; rfl) nofun)
      (h.session.stay h.nodup hk (by rw [hs]; rfl) (fun _ => hl))
  | completes s hs hc =>
    exact h.restaged (k := k) _ rfl rfl
      (h.dial.stay h.nodup hk (by rw [hs]; rfl) nofun)
      (h.session.leave rfl rfl)
  | trades s t rest id x x' hs hc hi hx hw =>
    exact h.restaged (k := k) _ rfl rfl
      (h.dial.stay h.nodup hk (by rw [hs]; rfl) nofun)
      (h.session.stay h.nodup hk (by rw [hs]; rfl)
        (fun _ => h.session.head k hk (by rw [hs]; rfl)))
  | asks s t rest x x' hs hc hi hq hx hw =>
    exact h.restaged (k := k) _ rfl rfl
      (h.dial.stay h.nodup hk (by rw [hs]; rfl) nofun)
      (h.session.stay h.nodup hk (by rw [hs]; rfl)
        (fun _ => h.session.head k hk (by rw [hs]; rfl)))
  | isConfirmed s t rest id due f q x x' hs hc hq hj hx hw =>
    exact h.restaged (k := k) _ rfl rfl
      (h.dial.stay h.nodup hk (by rw [hs]; rfl) nofun)
      (h.session.stay h.nodup hk (by rw [hs]; rfl)
        (fun _ => h.session.head k hk (by rw [hs]; rfl)))
  | isRejected s t rest id due f q reason hs hc hq hj =>
    exact h.restaged (k := k) _ rfl rfl
      (h.dial.stay h.nodup hk (by rw [hs]; rfl) nofun)
      (h.session.leave rfl rfl)
  | failsSending s' e hs hl hc he hf =>
    have hout : k.stage.inDial = false := by
      cases hst : k.stage <;> rw [hst] at hs <;> first | rfl | cases hs
    unfold Client.failSending
    split
    · obtain ⟨xs, hd⟩ := Client.dropSession_spec { c with session := s' }
      rw [hd]
      exact h.failed (k := k) hk e (.inl ⟨rfl, hout⟩) (.inr rfl) rfl rfl
    · exact h.failed (k := k) hk e (.inl ⟨rfl, hout⟩) (.inr rfl) rfl rfl
  | retires e hs hl =>
    exact h.restaged (k := k) _ rfl rfl
      (h.dial.stay h.nodup hk (by rw [hs]; rfl) (fun _ => hl))
      (h.session.join h.nodup hk (by rw [hs]; rfl) rfl rfl)
  | restarts e task hs hl ht =>
    have h' := h.retasked k.id task
    have hk' : { k with task } ∈ (c.setTask k.id task).calls := by
      refine List.mem_map.2 ⟨k, hk, ?_⟩
      rw [if_pos rfl]
    obtain ⟨xs, hd⟩ := c.dropSession_spec
    rw [hd]
    exact h'.restaged (k := { k with task }) _ rfl rfl
      (h'.dial.rejoin (k := { k with task }) h'.nodup hk' (.finished (.ok ()))
        rfl rfl rfl rfl)
      (h'.session.leave rfl rfl)
  | prepares hs hl =>
    exact h.restaged (k := k) _ rfl rfl
      (h.dial.stay h.nodup hk (by rw [hs]; rfl) (fun _ => hl))
      (h.session.join h.nodup hk (by rw [hs]; rfl) rfl rfl)
  | closes hs hl =>
    obtain ⟨xs, hd⟩ := c.logOff_spec
    rw [hd]
    exact h.restaged (k := k) _ rfl rfl (h.dial.leave rfl rfl) (h.session.leave rfl rfl)

theorem reads (h : Locked c) (hr : c.read = some c') : Locked c' := by
  obtain ⟨s, x, x', -, -, -, ⟨f, -, -, rfl⟩ | ⟨f, -, -, rfl⟩ | ⟨e, -, rfl⟩⟩ := read_cases hr
  all_goals exact ⟨h.nodup, h.fresh, h.dial, h.session⟩

/-- A new call asks for the dialling lock, unless its batch is empty. -/
theorem calls (h : Locked c) (task : Task) : Locked (c.call task).2 := by
  have hadded : ∀ st : Stage, st.inDial = false → st.inSession = false → st.ownsDial = false →
      st.ownsSession = false → Locked { c with
        nextCall := c.nextCall + 1, calls := c.calls ++ [⟨c.nextCall, task, st⟩] } := by
    intro st hd hs hod hos
    refine ⟨?_, ?_, h.dial.add hd hod, h.session.add hs hos⟩
    · simp only [List.map_append, List.map_cons, List.map_nil]
      rw [List.nodup_append]
      refine ⟨h.nodup, by simp, ?_⟩
      intro i hi j hj
      obtain ⟨a, ha, rfl⟩ := List.mem_map.1 hi
      have hlt := h.fresh a ha
      simp only [List.mem_singleton] at hj
      omega
    · intro j hj
      change j.id < c.nextCall + 1
      rcases List.mem_append.1 hj with hj | hj
      · have hlt := h.fresh j hj
        omega
      · rw [List.mem_singleton] at hj
        subst hj
        exact Nat.lt_succ_self _
  have hjoined : ∀ st : Stage, st.inDial = true → st.ownsDial = false → st.inSession = false →
      st.ownsSession = false →
      Locked { c with
        dialLock := c.dialLock.join c.nextCall, nextCall := c.nextCall + 1
        calls := c.calls ++ [⟨c.nextCall, task, st⟩] } := by
    intro st hd hod hs hos
    have h' := hadded (.finished (.ok ())) rfl rfl rfl rfl
    have hmem : (⟨c.nextCall, task, .finished (.ok ())⟩ : Call) ∈
        c.calls ++ [⟨c.nextCall, task, .finished (.ok ())⟩] := by simp
    have hcalls := restage_concat h.fresh task (.finished (.ok ())) st
    refine h'.restaged (k := ⟨c.nextCall, task, .finished (.ok ())⟩) st hcalls.symm rfl
      (h'.dial.join h'.nodup hmem rfl hd hod)
      (h'.session.stay h'.nodup hmem (by rw [hs]; rfl) (by rw [hos]; nofun))
  have hcalls : ∀ st, restage (c.calls ++ [⟨c.nextCall, task, .beforeConnect⟩]) c.nextCall st =
      c.calls ++ [⟨c.nextCall, task, st⟩] := fun st => restage_concat h.fresh task _ st
  cases task with
  | connect =>
    have hstart := hjoined .beforeConnect rfl rfl rfl rfl
    rwa [← hcalls] at hstart
  | close =>
    have hstart := hjoined .beforeClose rfl rfl rfl rfl
    rwa [← hcalls] at hstart
  | publish batch again =>
    cases batch with
    | nil =>
      have hdone := hadded (.finished (.ok ())) rfl rfl rfl rfl
      rwa [← hcalls] at hdone
    | cons t batch =>
      have hstart := hjoined .beforeConnect rfl rfl rfl rfl
      rwa [← hcalls] at hstart

/-- A call that is forgotten, with the queues rid of it or without it in them. -/
theorem removed (h : Locked c) (hc : c'.calls = c.calls.filter (·.id ≠ k.id))
    (hn : c'.nextCall = c.nextCall)
    (hd : Serves c'.dialLock (c.calls.filter (·.id ≠ k.id)) Stage.inDial Stage.ownsDial)
    (hs : Serves c'.sessionLock (c.calls.filter (·.id ≠ k.id)) Stage.inSession
      Stage.ownsSession) : Locked c' where
  nodup := by rw [hc]; exact h.nodup.sublist (List.filter_sublist.map _)
  fresh := by
    rw [hc, hn]
    intro j hj
    exact h.fresh j (List.mem_filter.1 hj).1
  dial := by rw [hc]; exact hd
  session := by rw [hc]; exact hs

theorem givesUp (h : Locked c) (id : Nat) : Locked (c.abandon id) := by
  unfold Client.abandon
  split
  · exact h
  · rename_i k hf
    have hid : k.id = id := by simpa using List.find?_some hf
    subst hid
    cases hown : Client.ownConnection? k <;> cases hdial : Client.isDialling k <;>
      exact h.removed rfl rfl h.dial.erase h.session.erase

theorem move (h : Locked c) (hm : Move c c') : Locked c' := by
  cases hm with
  | goes now k hk hstep => exact h.goes (List.mem_of_find?_eq_some hk) (goes_of_step hstep)
  | around ha =>
    cases ha with
    | reads hr => exact h.reads hr
    | disturbs n x x' hx hl hc => exact ⟨h.nodup, h.fresh, h.dial, h.session⟩
    | listens b => exact ⟨h.nodup, h.fresh, h.dial, h.session⟩
  | calls task ht => exact h.calls task
  | forgets k r hk hs =>
    exact h.removed rfl rfl (h.dial.forget h.nodup hk (by rw [hs]; rfl))
      (h.session.forget h.nodup hk (by rw [hs]; rfl))
  | givesUp k hk hs => exact h.givesUp k.id

theorem new (config : RelayConfig) : Locked (.new config) where
  nodup := List.nodup_nil
  fresh k hk := by cases hk
  dial := .free _ _
  session := .free _ _

/-- At most one call is about to dial, dials, or logs on. -/
theorem ownsDial_unique (h : Locked c) {i j : Call} (hi : i ∈ c.calls) (hj : j ∈ c.calls)
    (hoi : i.stage.ownsDial = true) (hoj : j.stage.ownsDial = true) : i = j :=
  eq_of_id_eq h.nodup hi hj (heldBy_unique (h.dial.head i hi hoi) (h.dial.head j hj hoj))

/-- At most one call sends on the session, and no other holds it meanwhile. -/
theorem eq_of_ownsSession (h : Locked c) {i j : Call} (hi : i ∈ c.calls) (hj : j ∈ c.calls)
    (hoi : i.stage.ownsSession = true) (hlj : c.sessionLock.heldBy j.id = true) : i = j :=
  eq_of_id_eq h.nodup hi hj (heldBy_unique (h.session.head i hi hoi) hlj)

end Locked

theorem Reachable.locked {config : RelayConfig} {c : Client} (h : Reachable config c) :
    Locked c := by
  induction h with
  | new => exact .new config
  | move _ hm ih => exact ih.move hm

end Relay
end MarketFeed
