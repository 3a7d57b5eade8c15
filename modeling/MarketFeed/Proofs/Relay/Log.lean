import Mathlib.Data.List.Nodup
import MarketFeed.Proofs.Tasks.History
import MarketFeed.Relay.Client

/-!
# MarketFeed.Proofs.Relay.Log

What the log of a connection must look like.

* `Welcomed`, `Asking`, `Answered` — how far the logon and the subscriptions have got.
* `MayWrite`, `Orderly` — what may be written next, and the logs that keep to it.
* `Disciplined` — what that comes to for a whole log. `Orderly.disciplined` derives it.
-/

namespace MarketFeed
namespace Relay

/-! ## Reading a log -/

namespace Exchange

/-- A heartbeat of the peer. -/
def isBeat : Exchange → Bool
  | .wrote _ => false
  | .took f => f.code = Wire.MessageKind.heartbeat.code

/-- The listing and the number of a SUBSCRIBE. -/
def subscription? : Exchange → Option (Listing × UInt32)
  | .wrote (.subscribe id symbol exchange) => some (⟨symbol, exchange⟩, id)
  | _ => none

end Exchange

def messages (log : List Exchange) : List Wire.Message := log.filterMap Exchange.message?

def subscriptions (log : List Exchange) : List (Listing × UInt32) :=
  log.filterMap Exchange.subscription?

/-- A LOGON_RESPONSE with a good result. -/
def Welcomes (f : Wire.Frame) : Prop :=
  ∃ version text, Wire.Message.decode f = .ok (.logonResponse version logonAccepted text)

/-- A SUBSCRIPTION_RESPONSE to the request `id` with a good result. -/
def Confirms (id : UInt32) (f : Wire.Frame) : Prop :=
  ∃ reason, Wire.Message.decode f = .ok (.subscriptionResponse id 0 reason)

def Welcomed (log : List Exchange) : Prop := ∃ f, .took f ∈ log ∧ Welcomes f

/-- The last thing that has happened, but for heartbeats, is the SUBSCRIBE `id` for the listing. -/
def Asking (log : List Exchange) (l : Listing) (id : UInt32) : Prop :=
  ∃ before after, log = before ++ .wrote (.subscribe id l.symbol l.exchange) :: after ∧
    ∀ x ∈ after, x.isBeat = true

/-- The frame is the first but for heartbeats after a SUBSCRIBE `id` for the listing. -/
def Replied (log : List Exchange) (l : Listing) (id : UInt32) (f : Wire.Frame) : Prop :=
  ∃ before after, log = before ++ .took f :: after ∧ Asking before l id ∧
    f.code ≠ Wire.MessageKind.heartbeat.code

/-- The reply to a SUBSCRIBE `id` for the listing has confirmed it. -/
def Answered (log : List Exchange) (l : Listing) (id : UInt32) : Prop :=
  ∃ f, Replied log l id f ∧ Confirms id f

/-- The peer has accepted the logon, and the client has not logged off. -/
structure InUse (log : List Exchange) : Prop where
  opened : messages log ≠ []
  welcomed : Welcomed log
  stays : ∀ reason, .wrote (.logoff reason) ∉ log

/-- What may be written after `log`. -/
def MayWrite (config : RelayConfig) (log : List Exchange) : Wire.Message → Prop
  | .subscribe id symbol exchange =>
    InUse log ∧ id = UInt32.ofNat ((subscriptions log).length + 1) ∧
      ∀ i, ¬ Answered log ⟨symbol, exchange⟩ i
  | .tradeUpdate id symbol exchange _ _ _ => InUse log ∧ Answered log ⟨symbol, exchange⟩ id
  | .logoff _ => InUse log
  | m => messages log = [] ∧ m = Client.logonRequest config

/-- All that was written could be written when it was. -/
inductive Orderly (config : RelayConfig) : List Exchange → Prop where
  | nil : Orderly config []
  | took {log : List Exchange} (h : Orderly config log) (f : Wire.Frame) :
      Orderly config (log ++ [.took f])
  | wrote {log : List Exchange} {m : Wire.Message} (h : Orderly config log)
      (hm : MayWrite config log m) : Orderly config (log ++ [.wrote m])

/-- The rules that the messages of one connection keep. -/
structure Disciplined (config : RelayConfig) (log : List Exchange) : Prop where
  /-- The first message is the logon request; all others are of three kinds. -/
  logon : ∀ m rest, messages log = m :: rest → m = Client.logonRequest config ∧
    ∀ m' ∈ rest, m'.kind = .subscribe ∨ m'.kind = .tradeUpdate ∨ m'.kind = .logoff
  /-- Nothing else is written before the peer has accepted the logon. -/
  waits : ∀ before m after, log = before ++ .wrote m :: after → messages before ≠ [] →
    Welcomed before
  /-- Nothing is written after the logoff. -/
  last : ∀ before reason after, log = before ++ .wrote (.logoff reason) :: after →
    messages after = []
  /-- The requests count from one. -/
  numbered : (subscriptions log).map Prod.snd =
    (List.range (subscriptions log).length).map fun i => UInt32.ofNat (i + 1)
  /-- Each trade carries the number of a request that was confirmed for its listing before. -/
  answered : ∀ before id symbol exchange price size time after,
    log = before ++ .wrote (.tradeUpdate id symbol exchange price size time) :: after →
      Answered before ⟨symbol, exchange⟩ id
  /-- No listing is asked for once it is confirmed. -/
  once : ∀ before id symbol exchange after,
    log = before ++ .wrote (.subscribe id symbol exchange) :: after →
      ∀ i, ¬ Answered before ⟨symbol, exchange⟩ i
  /-- Unless the numbers have come round, two trades carry the same one just when they are of the
  same listing. -/
  distinct : (subscriptions log).length < UInt32.size →
    ∀ id symbol exchange price size time id' symbol' exchange' price' size' time',
      .wrote (.tradeUpdate id symbol exchange price size time) ∈ log →
      .wrote (.tradeUpdate id' symbol' exchange' price' size' time') ∈ log →
      (id = id' ↔ symbol = symbol' ∧ exchange = exchange')

/-! ## One more entry -/

section Concat

variable {log : List Exchange} {l : Listing} {id : UInt32} {f : Wire.Frame} {m : Wire.Message}

@[simp] theorem messages_took : messages (log ++ [Exchange.took f]) = messages log := by
  simp [messages, Exchange.message?]

@[simp] theorem messages_wrote : messages (log ++ [Exchange.wrote m]) = messages log ++ [m] := by
  simp [messages, Exchange.message?]

@[simp] theorem subscriptions_took :
    subscriptions (log ++ [Exchange.took f]) = subscriptions log := by
  simp [subscriptions, Exchange.subscription?]

@[simp] theorem subscriptions_subscribe {symbol exchange : String} :
    subscriptions (log ++ [Exchange.wrote (.subscribe id symbol exchange)]) =
      subscriptions log ++ [(⟨symbol, exchange⟩, id)] := by
  simp [subscriptions, Exchange.subscription?]

theorem subscriptions_wrote (hm : m.kind ≠ .subscribe) :
    subscriptions (log ++ [Exchange.wrote m]) = subscriptions log := by
  cases m with
  | subscribe id symbol exchange => exact absurd rfl hm
  | _ => simp [subscriptions, Exchange.subscription?]

theorem Welcomed.concat (h : Welcomed log) (x : Exchange) : Welcomed (log ++ [x]) := by
  obtain ⟨f, hf, hw⟩ := h
  exact ⟨f, List.mem_append_left _ hf, hw⟩

theorem asking_took : Asking (log ++ [Exchange.took f]) l id ↔
    Asking log l id ∧ f.code = Wire.MessageKind.heartbeat.code := by
  unfold Asking
  constructor
  · rintro ⟨before, after, h, hb⟩
    rcases concat_eq_append_cons.1 h with ⟨-, -, hx⟩ | ⟨rest, rfl, hlog⟩
    · cases hx
    · have hf := hb (.took f) (by simp)
      exact ⟨⟨before, rest, hlog, fun x hx => hb x (by simp [hx])⟩,
        by simpa [Exchange.isBeat] using hf⟩
  · rintro ⟨⟨before, after, rfl, hb⟩, hf⟩
    refine ⟨before, after ++ [Exchange.took f], by simp, ?_⟩
    intro x hx
    rcases List.mem_append.1 hx with hx | hx
    · exact hb x hx
    · rw [List.mem_singleton] at hx
      subst hx
      simpa [Exchange.isBeat] using hf

theorem asking_wrote :
    Asking (log ++ [Exchange.wrote m]) l id ↔ m = .subscribe id l.symbol l.exchange := by
  unfold Asking
  constructor
  · rintro ⟨before, after, h, hb⟩
    rcases concat_eq_append_cons.1 h with ⟨-, -, hx⟩ | ⟨rest, rfl, -⟩
    · cases hx
      rfl
    · have hm := hb (.wrote m) (by simp)
      cases hm
  · rintro rfl
    exact ⟨log, [], rfl, nofun⟩

theorem asking_nil : ¬ Asking [] l id := by
  rintro ⟨before, after, h, -⟩
  simp at h

theorem Asking.unique {l' : Listing} {id' : UInt32} (h : Asking log l id)
    (h' : Asking log l' id') : l = l' ∧ id = id' := by
  obtain ⟨before, after, rfl, hb⟩ := h
  obtain ⟨before', after', heq, hb'⟩ := h'
  rcases List.append_eq_append_iff.1 heq with ⟨mid, rfl, hmid⟩ | ⟨mid, rfl, hmid⟩
  · cases mid with
    | nil =>
      cases l
      cases l'
      cases hmid
      exact ⟨rfl, rfl⟩
    | cons x mid =>
      cases hmid
      have hm := hb (.wrote (.subscribe id' l'.symbol l'.exchange)) (by simp)
      cases hm
  · cases mid with
    | nil =>
      cases l
      cases l'
      cases hmid
      exact ⟨rfl, rfl⟩
    | cons x mid =>
      cases hmid
      have hm := hb' (.wrote (.subscribe id l.symbol l.exchange)) (by simp)
      cases hm

/-- A heartbeat confirms nothing. -/
theorem Confirms.not_beat (h : Confirms id f) : f.code ≠ Wire.MessageKind.heartbeat.code := by
  intro hf
  obtain ⟨reason, h⟩ := h
  unfold Wire.Message.decode at h
  rw [hf, Wire.MessageKind.ofCode?_code] at h
  simp only at h
  split at h
  · cases h
  · cases h

theorem replied_took {g : Wire.Frame} : Replied (log ++ [Exchange.took f]) l id g ↔
    Replied log l id g ∨ (Asking log l id ∧ g = f ∧ f.code ≠ Wire.MessageKind.heartbeat.code) := by
  constructor
  · rintro ⟨before, after, h, ha, hf⟩
    rcases concat_eq_append_cons.1 h with ⟨-, rfl, hx⟩ | ⟨rest, rfl, hlog⟩
    · cases hx
      exact .inr ⟨ha, rfl, hf⟩
    · exact .inl ⟨before, rest, hlog, ha, hf⟩
  · rintro (⟨before, after, rfl, ha, hf⟩ | ⟨ha, rfl, hf⟩)
    · exact ⟨before, after ++ [Exchange.took f], by simp, ha, hf⟩
    · exact ⟨log, [], rfl, ha, hf⟩

theorem replied_wrote : Replied (log ++ [Exchange.wrote m]) l id f ↔ Replied log l id f := by
  constructor
  · rintro ⟨before, after, h, ha, hf⟩
    rcases concat_eq_append_cons.1 h with ⟨-, -, hx⟩ | ⟨rest, rfl, hlog⟩
    · cases hx
    · exact ⟨before, rest, hlog, ha, hf⟩
  · rintro ⟨before, after, rfl, ha, hf⟩
    exact ⟨before, after ++ [Exchange.wrote m], by simp, ha, hf⟩

theorem replied_nil : ¬ Replied [] l id f := by
  rintro ⟨before, after, h, -⟩
  simp at h

theorem Replied.mono (h : Replied log l id f) (more : List Exchange) :
    Replied (log ++ more) l id f := by
  obtain ⟨before, after, rfl, ha, hf⟩ := h
  exact ⟨before, after ++ more, by simp, ha, hf⟩

theorem answered_took : Answered (log ++ [Exchange.took f]) l id ↔
    Answered log l id ∨ (Asking log l id ∧ Confirms id f) := by
  constructor
  · rintro ⟨g, h, hc⟩
    rcases replied_took.1 h with h | ⟨ha, rfl, -⟩
    · exact .inl ⟨g, h, hc⟩
    · exact .inr ⟨ha, hc⟩
  · rintro (⟨g, h, hc⟩ | ⟨ha, hc⟩)
    · exact ⟨g, replied_took.2 (.inl h), hc⟩
    · exact ⟨f, replied_took.2 (.inr ⟨ha, rfl, hc.not_beat⟩), hc⟩

theorem answered_wrote : Answered (log ++ [Exchange.wrote m]) l id ↔ Answered log l id := by
  constructor
  · rintro ⟨g, h, hc⟩
    exact ⟨g, replied_wrote.1 h, hc⟩
  · rintro ⟨g, h, hc⟩
    exact ⟨g, replied_wrote.2 h, hc⟩

theorem answered_nil : ¬ Answered [] l id := by
  rintro ⟨f, h, -⟩
  exact replied_nil h

theorem Answered.mono (h : Answered log l id) (more : List Exchange) :
    Answered (log ++ more) l id := by
  obtain ⟨f, h, hc⟩ := h
  exact ⟨f, h.mono more, hc⟩

theorem Asking.mem_subscriptions (h : Asking log l id) : (l, id) ∈ subscriptions log := by
  obtain ⟨before, after, rfl, -⟩ := h
  rw [subscriptions, List.mem_filterMap]
  exact ⟨.wrote (.subscribe id l.symbol l.exchange), by simp, rfl⟩

theorem Replied.mem_subscriptions (h : Replied log l id f) : (l, id) ∈ subscriptions log := by
  obtain ⟨before, after, rfl, ha, -⟩ := h
  have hm := ha.mem_subscriptions
  rw [subscriptions, List.filterMap_append]
  exact List.mem_append_left _ hm

/-- A log with nothing but the logon holds no request. -/
theorem subscriptions_of_logon {config : RelayConfig}
    (h : messages log = [Client.logonRequest config]) : subscriptions log = [] := by
  rw [List.eq_nil_iff_forall_not_mem]
  intro p hp
  obtain ⟨x, hx, hxp⟩ := List.mem_filterMap.1 hp
  unfold Exchange.subscription? at hxp
  split at hxp
  · rename_i id symbol exchange
    have hm : .subscribe id symbol exchange ∈ messages log := List.mem_filterMap.2 ⟨_, hx, rfl⟩
    rw [h, List.mem_singleton] at hm
    cases hm
  · cases hxp

theorem judge_ok_iff : Session.judge id l f = .ok () ↔ Confirms id f := by
  unfold Session.judge Confirms
  constructor
  · intro h
    split at h
    · cases h
    · rename_i got result reason hd
      split at h
      · cases h
      · rename_i hid
        split at h
        · cases h
        · rename_i hres
          refine ⟨reason, ?_⟩
          rw [hd, not_ne_iff.1 hid, not_ne_iff.1 hres]
    · cases h
    · cases h
  · rintro ⟨reason, hd⟩
    simp [hd]

theorem InUse.took (h : InUse log) (f : Wire.Frame) : InUse (log ++ [Exchange.took f]) where
  opened := by rw [messages_took]; exact h.opened
  welcomed := h.welcomed.concat _
  stays reason hm := by
    rcases List.mem_append.1 hm with hm | hm
    · exact h.stays reason hm
    · simp at hm

theorem InUse.wrote (h : InUse log) (hm : m.kind ≠ .logoff) :
    InUse (log ++ [Exchange.wrote m]) where
  opened := by rw [messages_wrote]; simp
  welcomed := h.welcomed.concat _
  stays reason hr := by
    rcases List.mem_append.1 hr with hr | hr
    · exact h.stays reason hr
    · rw [List.mem_singleton] at hr
      cases hr
      exact hm rfl

end Concat

/-! ## What the rules come to -/

namespace Orderly

variable {config : RelayConfig} {log : List Exchange} {l : Listing} {id : UInt32}

/-- What was written could be written when it was. -/
theorem mayWrite (h : Orderly config log) :
    ∀ before m after, log = before ++ Exchange.wrote m :: after →
    MayWrite config before m := by
  induction h with
  | nil => intro before m after hlog; simp at hlog
  | took _ f ih =>
    intro before m after hlog
    rcases concat_eq_append_cons.1 hlog with ⟨-, -, hx⟩ | ⟨rest, -, hlog⟩
    · cases hx
    · exact ih before m rest hlog
  | wrote _ hm ih =>
    intro before m after hlog
    rcases concat_eq_append_cons.1 hlog with ⟨-, rfl, hx⟩ | ⟨rest, -, hlog⟩
    · cases hx
      exact hm
    · exact ih before m rest hlog

/-- What comes after the first message is one of three kinds, and comes after the welcome. -/
theorem mayWrite_later {m : Wire.Message} (hm : MayWrite config log m) (h : messages log ≠ []) :
    InUse log ∧ (m.kind = .subscribe ∨ m.kind = .tradeUpdate ∨ m.kind = .logoff) := by
  cases m with
  | subscribe => exact ⟨hm.1, .inl rfl⟩
  | tradeUpdate => exact ⟨hm.1, .inr (.inl rfl)⟩
  | logoff => exact ⟨hm, .inr (.inr rfl)⟩
  | _ => exact absurd hm.1 h

theorem mayWrite_first {m : Wire.Message} (hm : MayWrite config log m) (h : messages log = []) :
    m = Client.logonRequest config := by
  cases m with
  | subscribe => exact absurd h hm.1.opened
  | tradeUpdate => exact absurd h hm.1.opened
  | logoff => exact absurd h hm.opened
  | _ => exact hm.2

theorem logon (h : Orderly config log) : ∀ m rest, messages log = m :: rest →
    m = Client.logonRequest config ∧
      ∀ m' ∈ rest, m'.kind = .subscribe ∨ m'.kind = .tradeUpdate ∨ m'.kind = .logoff := by
  induction h with
  | nil => intro m rest hlog; cases hlog
  | took _ f ih => simpa using ih
  | @wrote log m _ hm ih =>
    intro m' rest hlog
    rw [messages_wrote] at hlog
    cases hold : messages log with
    | nil =>
      rw [hold] at hlog
      cases hlog
      exact ⟨mayWrite_first hm hold, nofun⟩
    | cons m₁ older =>
      rw [hold] at hlog
      cases hlog
      obtain ⟨hfirst, hkinds⟩ := ih _ older hold
      refine ⟨hfirst, ?_⟩
      intro m' hm'
      rcases List.mem_append.1 hm' with hm' | hm'
      · exact hkinds m' hm'
      · rw [List.mem_singleton] at hm'
        subst hm'
        exact (mayWrite_later hm (by rw [hold]; nofun)).2

/-- Nothing may follow a logoff. -/
theorem last (h : Orderly config log) : ∀ before reason after,
    log = before ++ Exchange.wrote (.logoff reason) :: after → messages after = [] := by
  induction h with
  | nil => intro before reason after hlog; simp at hlog
  | took _ f ih =>
    intro before reason after hlog
    rcases concat_eq_append_cons.1 hlog with ⟨-, -, hx⟩ | ⟨rest, rfl, hold⟩
    · cases hx
    · rw [messages_took]
      exact ih before reason rest hold
  | wrote _ hm ih =>
    intro before reason after hlog
    rcases concat_eq_append_cons.1 hlog with ⟨rfl, -, -⟩ | ⟨rest, -, rfl⟩
    · rfl
    · have hopened : messages (before ++ Exchange.wrote (.logoff reason) :: rest) ≠ [] := by
        simp [messages, Exchange.message?]
      exact absurd (by simp) ((mayWrite_later hm hopened).1.stays reason)

theorem numbered (h : Orderly config log) : (subscriptions log).map Prod.snd =
    (List.range (subscriptions log).length).map fun i => UInt32.ofNat (i + 1) := by
  induction h with
  | nil => rfl
  | took _ f ih => simpa using ih
  | @wrote log m _ hm ih =>
    cases m with
    | subscribe id symbol exchange =>
      rw [subscriptions_subscribe, List.map_append, ih, List.length_append, List.length_singleton,
        List.range_succ, List.map_append, hm.2.1]
      rfl
    | _ =>
      rw [subscriptions_wrote (by nofun)]
      exact ih

/-- A listing that is asked for is not confirmed yet. -/
theorem not_answered_of_asking (h : Orderly config log) :
    Asking log l id → ∀ i, ¬ Answered log l i := by
  induction h with
  | nil => exact fun _ _ => answered_nil
  | took _ f ih =>
    intro ha i hi
    obtain ⟨ha, hf⟩ := asking_took.1 ha
    rcases answered_took.1 hi with hi | ⟨-, hc⟩
    · exact ih ha i hi
    · exact hc.not_beat hf
  | wrote _ hm _ =>
    intro ha i
    rw [answered_wrote]
    rw [asking_wrote] at ha
    subst ha
    exact hm.2.2 i

theorem answered_unique {id' : UInt32} (h : Orderly config log) :
    Answered log l id → Answered log l id' → id = id' := by
  induction h with
  | nil => exact fun ha _ => absurd ha answered_nil
  | took hlog f ih =>
    intro ha ha'
    rcases answered_took.1 ha with ha | ⟨ha, -⟩
    · rcases answered_took.1 ha' with ha' | ⟨ha', -⟩
      · exact ih ha ha'
      · exact absurd ha (hlog.not_answered_of_asking ha' id)
    · rcases answered_took.1 ha' with ha' | ⟨ha', -⟩
      · exact absurd ha' (hlog.not_answered_of_asking ha id')
      · exact (ha.unique ha').2
  | wrote _ _ ih =>
    rw [answered_wrote, answered_wrote]
    exact ih

/-- Fewer requests than numbers all carry different ones. -/
theorem nodup_ids (h : Orderly config log) (hfew : (subscriptions log).length < UInt32.size) :
    ((subscriptions log).map Prod.snd).Nodup := by
  rw [h.numbered]
  refine List.Nodup.map_on ?_ List.nodup_range
  intro i hi j hj hij
  rw [List.mem_range] at hi hj
  have hij := congrArg UInt32.toNat hij
  rw [UInt32.toNat_ofNat', UInt32.toNat_ofNat', Nat.mod_eq_of_lt, Nat.mod_eq_of_lt] at hij
  · omega
  · change j + 1 < UInt32.size
    omega
  · change i + 1 < UInt32.size
    omega

theorem answered_of_trade (h : Orderly config log) {symbol exchange : String}
    {price size time : Binary64}
    (ht : .wrote (.tradeUpdate id symbol exchange price size time) ∈ log) :
    Answered log ⟨symbol, exchange⟩ id := by
  obtain ⟨before, after, rfl⟩ := List.append_of_mem ht
  exact (h.mayWrite before _ after rfl).2.mono _

theorem disciplined (h : Orderly config log) : Disciplined config log where
  logon := h.logon
  waits before m after hlog hopened := (mayWrite_later (h.mayWrite before m after hlog) hopened).1.2
  last := h.last
  numbered := h.numbered
  answered before id symbol exchange price size time after hlog :=
    (h.mayWrite before _ after hlog).2
  once before id symbol exchange after hlog := (h.mayWrite before _ after hlog).2.2
  distinct := by
    intro hfew id symbol exchange price size time id' symbol' exchange' price' size' time' ht ht'
    have ha := h.answered_of_trade ht
    have ha' := h.answered_of_trade ht'
    constructor
    · rintro rfl
      obtain ⟨f, hf, -⟩ := ha
      obtain ⟨f', hf', -⟩ := ha'
      have heq := List.inj_on_of_nodup_map (h.nodup_ids hfew) hf.mem_subscriptions
        hf'.mem_subscriptions rfl
      cases heq
      exact ⟨rfl, rfl⟩
    · rintro ⟨rfl, rfl⟩
      exact h.answered_unique ha ha'

end Orderly

end Relay
end MarketFeed
