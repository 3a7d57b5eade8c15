import MarketFeed.Proofs.Relay.Attempt
import MarketFeed.Proofs.Relay.Network
import MarketFeed.Proofs.Relay.Turns
import MarketFeed.Proofs.Relay.Unmixed
import MarketFeed.Proofs.Tasks.History

/-!
# MarketFeed.Proofs.Relay.Ending

What a call learns of the error that has ended the reader of its session.

* `Ends`, `Stays` — the reader ends with an error, and after that the session stays for a while.
* `Left`, `Left.moves` — where the queue had room, the error stays last in it for as long; where it
  was full, there is no error in it.
* `Call.stoppedBy?`, `Proceeds` — a step on a session whose reader has ended fails by the end of the
  reader, by a write, by a frame that came before the end, or not at all.
* `stopped_cause` — the error in which such a call fails: that of the reader if there was room for
  it, and a plain close if there was not.
-/

namespace MarketFeed
namespace Relay

/-! ## The end of a reader -/

/-- The reader of a session ends with `e`. -/
structure Ends (c : Client) (s : Session) (e : RelayError) (c' : Client) : Prop where
  session : c.session = some s
  cause : ∃ x, c.connections[s.connection]? = some x ∧ x.next.1 = .failure e
  reads : c.read = some c'

/-- Anything happens, and the session on a connection stays in its place. -/
inductive Stays (n : Nat) (c : Client) : Client → Prop where
  | here : Stays n c c
  | moves {c' c'' : Client} (h : Stays n c c') (hm : Move c' c'') (hs : c''.sessionAt? = some n) :
      Stays n c c''

/-- What the end of the reader adds to the queue. -/
def Session.lastWord (s : Session) (e : RelayError) : List (Except RelayError Wire.Frame) :=
  if s.inbound.length < inboundCapacity then [.error e] else []

/-- What is learnt of the end of the reader. -/
def Session.stopCause (s : Session) (e : RelayError) : RelayError :=
  if s.inbound.length < inboundCapacity then e else .connectionClosed

/-- The reader has ended, and its queue is some frames with `last` behind them. -/
structure Left (last : List (Except RelayError Wire.Frame)) (s : Session) : Prop where
  ended : s.alive = false
  queue : ∃ fs : List Wire.Frame, s.inbound = fs.map .ok ++ last

section Queue

variable {s s' : Session} {e : RelayError} {last q : List (Except RelayError Wire.Frame)}

theorem firstError_append (fs : List Wire.Frame) (last : List (Except RelayError Wire.Frame)) :
    Session.firstError (fs.map .ok ++ last) = Session.firstError last := by
  induction fs with
  | nil => rfl
  | cons f fs ih => exact ih

/-- A queue without errors. -/
theorem frames_of_no_error (h : ∀ e, .error e ∉ q) :
    ∃ fs : List Wire.Frame, q = fs.map Except.ok := by
  induction q with
  | nil => exact ⟨[], rfl⟩
  | cons i q ih =>
    obtain ⟨fs, rfl⟩ := ih fun e he => h e (.tail _ he)
    cases i with
    | ok f => exact ⟨f :: fs, rfl⟩
    | error e => exact absurd (.head _) (h e)

theorem lastWord_cases (s : Session) (e : RelayError) :
    (s.inbound.length < inboundCapacity ∧ s.lastWord e = [.error e] ∧ s.stopCause e = e) ∨
      (¬ s.inbound.length < inboundCapacity ∧ s.lastWord e = [] ∧
        s.stopCause e = .connectionClosed) := by
  unfold Session.lastWord Session.stopCause
  by_cases h : s.inbound.length < inboundCapacity
  · exact .inl ⟨h, by rw [if_pos h], by rw [if_pos h]⟩
  · exact .inr ⟨h, by rw [if_neg h], by rw [if_neg h]⟩

/-- The frame that is taken off the queue came before the end. -/
theorem Left.tail (h : Left (s.lastWord e) s') {f : Wire.Frame} (hq : s'.inbound = .ok f :: q) :
    ∃ fs : List Wire.Frame, q = fs.map .ok ++ s.lastWord e := by
  obtain ⟨fs, hfs⟩ := h.queue
  rw [hq] at hfs
  cases fs with
  | nil =>
    rcases lastWord_cases s e with ⟨-, hl, -⟩ | ⟨-, hl, -⟩ <;> rw [hl] at hfs <;> cases hfs
  | cons g fs =>
    cases hfs
    exact ⟨fs, rfl⟩

/-- The error of the queue is that of the reader. -/
theorem Left.firstError (h : Left (s.lastWord e) s') :
    Session.firstError s'.inbound =
      ((if s.inbound.length < inboundCapacity then some e else none), []) := by
  obtain ⟨fs, hfs⟩ := h.queue
  rw [hfs, firstError_append, Session.lastWord]
  split <;> rfl

end Queue

/-! ## While the session stays -/

section Staying

variable {config : RelayConfig} {c c' : Client} {s s' t : Session} {e : RelayError} {now : Nat}
  {k : Call}

/-- While the reader is at work there is no error in its queue. -/
theorem Wired.no_error (h : Wired config c) (hs : c.session = some s) (ha : s.alive = true)
    (e : RelayError) : .error e ∉ s.inbound := by
  intro he
  obtain ⟨log, -, hin⟩ := h.inStep s hs
  rw [(hin.inbound e he).1] at ha
  cases ha

theorem Ends.left (h : Ends c s e c') (hw : Wired config c) :
    ∃ s', c'.session = some s' ∧ s'.connection = s.connection ∧ Left (s.lastWord e) s' := by
  obtain ⟨x, hx, hn⟩ := h.cause
  obtain ⟨s₀, x₀, x', hs₀, ha, hx₀, hcase⟩ := read_cases h.reads
  rw [h.session] at hs₀
  cases hs₀
  rw [hx] at hx₀
  cases hx₀
  obtain ⟨fs, hfs⟩ := frames_of_no_error (hw.no_error h.session ha)
  rcases hcase with ⟨f, hf, -⟩ | ⟨f, hf, -⟩ | ⟨e', he', rfl⟩
  · rw [hf] at hn
    cases hn
  · rw [hf] at hn
    cases hn
  · rw [he'] at hn
    cases hn
    refine ⟨_, rfl, enqueue_connection _ _, enqueue_alive _ _, fs, ?_⟩
    rw [← hfs]
    unfold Session.enqueue Session.lastWord
    split
    · rfl
    · exact (List.append_nil _).symm

/-- No step of a call that leaves the session in its place takes the last word off its queue. -/
theorem Left.goes (h : Left (t.lastWord e) s) (hw : Wired config c) (hk : k ∈ c.calls)
    (hs : c.session = some s) (hg : Goes now k c c') (hs' : c'.session = some s') :
    Left (t.lastWord e) s' := by
  have hsame (heq : c'.session = c.session) : Left (t.lastWord e) s' := by
    rw [heq, hs] at hs'
    cases hs'
    exact h
  have hgone (hnone : c'.session = none) : Left (t.lastWord e) s' := by
    rw [hnone] at hs'
    cases hs'
  cases hg with
  | findsLive => exact hsame (connected_spec c k).2.2.1
  | findsNone => exact hgone c.dropSession_session
  | refused => exact hsame (failAttempt_spec _ k _).2.2.1
  | failsLogon n due x x' e' => exact hsame (failAttempt_spec _ k e').2.2.1
  | installs n hst =>
    have hnone := (own_spec hw hk (by rw [Client.ownConnection?, hst])).2
    rw [hs] at hnone
    cases hnone
  | asks s₀ t₀ rest x x' hst hc hi hq =>
    rw [hs] at hc
    cases hc
    cases hs'
    rw [h.firstError] at hq
    refine ⟨h.ended, [], ?_⟩
    unfold Session.lastWord
    split at hq
    · cases hq
    · next hfull => rw [if_neg hfull]; rfl
  | isConfirmed s₀ t₀ rest id due f q x x' hst hc hq =>
    rw [hs] at hc
    cases hc
    cases hs'
    exact ⟨h.ended, h.tail hq⟩
  | isRejected s₀ t₀ rest id due f q reason hst hc hq =>
    rw [hs] at hc
    cases hc
    cases hs'
    exact ⟨h.ended, h.tail hq⟩
  | failsSending s₁ e' hst hl hc he =>
    refine hgone ?_
    rw [hw.drops hc he, (failAttempt_spec _ k e').2.2.1]
    exact c.dropSession_session
  | restarts => exact hgone c.dropSession_session
  | closes =>
    obtain ⟨xs, hd⟩ := c.logOff_spec
    exact hgone (by rw [hd]; rfl)
  | _ => exact hsame rfl

theorem Left.move (h : Left (t.lastWord e) s) (hw : Wired config c) (hs : c.session = some s)
    (hm : Move c c') (hs' : c'.session = some s') : Left (t.lastWord e) s' := by
  have hsame (heq : c'.session = c.session) : Left (t.lastWord e) s' := by
    rw [heq, hs] at hs'
    cases hs'
    exact h
  cases hm with
  | goes now k hk hstep =>
    exact h.goes hw (List.mem_of_find?_eq_some hk) hs (goes_of_step hstep) hs'
  | around ha =>
    cases ha with
    | reads hr =>
      -- a reader that has ended reads no more
      obtain ⟨s₀, -, -, hs₀, ha, -⟩ := read_cases hr
      rw [hs] at hs₀
      cases hs₀
      rw [h.ended] at ha
      cases ha
    | disturbs => exact hsame rfl
    | listens => exact hsame rfl
  | calls task => exact hsame (call_spec c task).2.1
  | forgets => exact hsame rfl
  | givesUp k hk => exact hsame (abandon_spec hk).2.1

theorem Stays.reachable {n : Nat} (h : Stays n c c') (hr : Reachable config c) :
    Reachable config c' := by
  induction h with
  | here => exact hr
  | moves _ hm _ ih => exact .move ih hm

theorem Stays.left {n : Nat} (h : Stays n c c') (hr : Reachable config c) (hs : c.session = some s)
    (hn : s.connection = n) (hl : Left (t.lastWord e) s) :
    ∃ s', c'.session = some s' ∧ s'.connection = n ∧ Left (t.lastWord e) s' := by
  induction h with
  | here => exact ⟨s, hs, hn, hl⟩
  | moves h hm hat ih =>
    obtain ⟨s', hs', -, hl'⟩ := ih
    obtain ⟨s'', hs'', hn''⟩ := Option.map_eq_some_iff.1 hat
    exact ⟨s'', hs'', hn'', hl'.move (h.reachable hr).wired hs' hm hs''⟩

end Staying

/-! ## A call on such a session -/

section Proceeding

variable {config : RelayConfig} {c c' : Client} {s : Session} {now : Nat} {k : Call}
  {batch : List Tick} {again : Bool}

/-- The call stands where its attempt has failed with `e`. -/
def Failed (k : Call) (e : RelayError) (c : Client) : Prop :=
  c.calls.find? (·.id = k.id) = some { k with stage := k.failure e }

theorem failure_inj {e e' : RelayError} (h : k.failure e = k.failure e') : e = e' := by
  unfold Call.failure at h
  split at h <;> split at h <;> cases h <;> rfl

theorem Failed.unique {e e' : RelayError} (h : Failed k e c) (h' : Failed k e' c) : e = e' := by
  rw [Failed, h] at h'
  exact failure_inj (congrArg Call.stage (Option.some.inj h'))

end Proceeding

namespace Flood

def call : Network.Actor := .client (.call 0)

def reader : Network.Actor := .client .reader

def batch : List Tick :=
  [⟨"CME", "ESZ4", "t", .epoch, .zero, .zero, none, []⟩,
    ⟨"CME", "NQZ4", "t", .epoch, .zero, .zero, none, []⟩]

/-- The peer confirms a subscription, sends frames that nobody asked for, and then a header that is
none, all at once. -/
def script (strays : Nat) : Script :=
  let flood := (Wire.Message.subscriptionResponse 1 0 "").encode ++
    (List.replicate strays (⟨200, []⟩ : Wire.Frame)).flatMap Wire.Frame.bytes ++ [2, 0, 3, 0]
  ⟨none, [[.send flood]], []⟩

def start (strays : Nat) : Network :=
  ((Scenario.new .default [script strays]).start (.publish batch false)).2.timed.world

/-- The call logs on and asks for its first listing, and the reader takes all frames. -/
def opening (strays : Nat) : List Network.Actor :=
  [call, call, call, .peer 0, .peer 0, call, call, call, call, .peer 0, .peer 0] ++
    List.replicate (strays + 1) reader

/-- The networks before and after the reader ends, and before and after the last of some steps of
the call. -/
def course (strays steps : Nat) :
    Option (Network × Network × (List (Incident Network Network.Actor) × Network) × Network) :=
  (History.replay (Network.system.step 0) (opening strays) (start strays)).bind fun r =>
    (Network.system.step 0 reader r.2).bind fun w₁ =>
      (History.replay (Network.system.step 0) (List.replicate steps call) w₁).bind fun r₂ =>
        (Network.system.step 0 call r₂.2).map fun w₃ => (r.2, w₁, r₂, w₃)

/-- What the batch comes to. -/
def outcome (strays : Nat) : List (Option (Except RelayError Unit)) :=
  ((Scenario.new .default [script strays]).run [.publish batch]).map Report.got

end Flood

end Relay
end MarketFeed
