import MarketFeed.Proofs.Relay.Steps
import MarketFeed.Proofs.Tasks.System
import MarketFeed.Relay.Scenario

/-!
# MarketFeed.Proofs.Relay.Network

A client among its scripted peers comes about like any other.

* `Peer.step_spec` — a peer adds to what has arrived, or closes; it leaves the log alone.
* `around_of_stepPeer` — so what a peer does is one of the things that can happen to a client.
* `move_of_step`, `keeps_reachable` — no task of a network leaves the clients that can come about.
-/

namespace MarketFeed
namespace Relay

theorem Peer.deliver_spec (c : Connection) (bytes : List UInt8) :
    (Peer.deliver c bytes).log = c.log ∧ (Peer.deliver c bytes).clientClosed = c.clientClosed := by
  unfold Peer.deliver
  split <;> exact ⟨rfl, rfl⟩

theorem Peer.step_spec {now : Nat} {p p' : Peer} {c c' : Connection}
    (h : p.step now c = some (p', c')) : c'.log = c.log ∧ c'.clientClosed = c.clientClosed := by
  unfold Peer.step at h
  split at h
  · cases h
  · split at h
    · rename_i a rest _
      cases a with
      | send bytes => cases h; exact Peer.deliver_spec c bytes
      | acknowledge offset result reason => cases h; exact Peer.deliver_spec c _
      | pause length => cases h; exact ⟨rfl, rfl⟩
      | close => cases h; exact ⟨rfl, rfl⟩
    · split at h
      · cases h
      · split at h
        · simp only at h
          split at h <;> · cases h; exact ⟨rfl, rfl⟩
        · split at h
          · cases h; exact ⟨rfl, rfl⟩
          · cases h

theorem around_of_stepPeer {now n : Nat} {w w' : Network} (h : w.stepPeer now n = some w') :
    Around w.client w'.client := by
  unfold Network.stepPeer at h
  split at h
  · cases h
  · rename_i x hx
    obtain ⟨⟨p', x'⟩, hp, rfl⟩ := Option.map_eq_some_iff.1 h
    obtain ⟨hlog, hclosed⟩ := Peer.step_spec hp
    exact .disturbs n x x' hx hlog hclosed

/-- A call of a network goes on. -/
theorem call_of_step {w w' : Network} {now id : Nat}
    (h : Network.system.step now (.client (.call id)) w = some w') :
    ∃ k, k.id = id ∧ w.client.calls.find? (·.id = id) = some k ∧
      w.client.step now k = some w'.client := by
  obtain ⟨c, hc, rfl⟩ := Option.map_eq_some_iff.1 h
  obtain ⟨k, hk, hgo⟩ := Option.bind_eq_some_iff.1 hc
  exact ⟨k, by simpa using List.find?_some hk, hk, hgo⟩

/-- Whatever a task of a network does, the client makes one of its moves. -/
theorem move_of_step {w w' : Network} {now : Nat} {a : Network.Actor}
    (h : Network.system.step now a w = some w') : Move w.client w'.client := by
  cases a with
  | client a =>
    cases a with
    | call id =>
      obtain ⟨k, rfl, hk, hgo⟩ := call_of_step h
      exact .goes now k hk hgo
    | reader =>
      obtain ⟨c, hc, rfl⟩ := Option.map_eq_some_iff.1 h
      exact .around (.reads hc)
  | peer n => exact .around (around_of_stepPeer h)

theorem keeps_reachable (config : RelayConfig) :
    Network.system.Keeps fun w => Reachable config w.client :=
  fun _ _ _ _ hw hstep => .move hw (move_of_step hstep)

theorem reachable_start {config : RelayConfig} {s : Scenario}
    (h : Reachable config s.timed.world.client) {task : Task}
    (ht : ∀ batch, task ≠ .publish batch true) :
    Reachable config (s.start task).2.timed.world.client :=
  .move h (.calls task ht)

end Relay
end MarketFeed
