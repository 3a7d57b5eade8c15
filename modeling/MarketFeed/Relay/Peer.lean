import MarketFeed.Relay.Connection

/-!
# MarketFeed.Relay.Peer

A server that follows a script: for every message that it reads it does what the script says, and
meanwhile reads nothing.

* `Action`, `Script` — what the peer does, and when.
* `Peer` — a peer on one connection, with what it has seen.
* `Peer.step` — the peer goes on.
-/

namespace MarketFeed
namespace Relay

inductive Action where
  | send (bytes : List UInt8)
  /-- Answers the last subscription; the offset is added to its number. -/
  | acknowledge (offset : Int) (result : UInt16) (reason : String)
  | pause (length : Nat)
  | close
  deriving DecidableEq, Repr

structure Script where
  /-- On a logon; by default it is accepted. -/
  logon : Option (List Action)
  /-- On the first subscription, the second, and so on; the last entry counts for all later ones.
  By default all are accepted. -/
  subscribe : List (List Action)
  /-- On the trades, likewise; by default nothing is done. -/
  trade : List (List Action)
  deriving DecidableEq, Repr

/-- What a peer has seen of its client. -/
inductive Seen where
  | message (m : Wire.Message)
  /-- The client has closed. -/
  | ended
  deriving DecidableEq, Repr

structure Peer where
  script : Script
  /-- How many of the client's frames were read. -/
  read : Nat
  subscribes : Nat
  trades : Nat
  /-- The number of the last subscription. -/
  lastId : UInt32
  pending : List Action
  /-- The end of the current pause. -/
  busyUntil : Nat
  seen : List Seen
  /-- The end of the client's messages was seen. -/
  done : Bool

namespace Script

def silent : Script := ⟨none, [], []⟩

instance : Inhabited Script := ⟨silent⟩

def welcome : List Action := [.send (Wire.Message.logonResponse 8 1 "welcome").encode]

def nth (lists : List (List Action)) (n : Nat) (default : List Action) : List Action :=
  (lists[n]?.orElse fun _ => lists.getLast?).getD default

end Script

namespace Peer

def new (script : Script) : Peer := ⟨script, 0, 0, 0, 0, [], 0, [], false⟩

/-- What the peer is going to do about a message. -/
def react (p : Peer) (m : Wire.Message) : Peer :=
  let p := { p with seen := p.seen ++ [.message m] }
  match m with
  | .logonRequest .. => { p with pending := p.script.logon.getD Script.welcome }
  | .subscribe id _ _ =>
    { p with
      lastId := id
      pending := Script.nth p.script.subscribe p.subscribes [.acknowledge 0 0 ""]
      subscribes := p.subscribes + 1 }
  | .tradeUpdate .. =>
    { p with pending := Script.nth p.script.trade p.trades [], trades := p.trades + 1 }
  | _ => p

/-- Bytes on their way to the client, unless one side has closed. -/
def deliver (c : Connection) (bytes : List UInt8) : Connection :=
  if c.clientClosed || c.peerClosed then c else { c with incoming := c.incoming ++ bytes }

def perform (p : Peer) (now : Nat) (c : Connection) : Action → Peer × Connection
  | .send bytes => (p, deliver c bytes)
  | .acknowledge offset result reason =>
    let id := UInt32.ofNat ((p.lastId.toNat + offset) % 4294967296).toNat
    (p, deliver c (Wire.Message.subscriptionResponse id result reason).encode)
  | .pause length => ({ p with busyUntil := now + length }, c)
  | .close => ({ p with pending := [] }, { c with peerClosed := true })

/-- Does the next action, or else reads the next message. -/
def step (now : Nat) (p : Peer) (c : Connection) : Option (Peer × Connection) :=
  if now < p.busyUntil then none
  else
    match p.pending with
    | a :: rest => some ({ p with pending := rest }.perform now c a)
    | [] =>
      if c.peerClosed || p.done then none
      else
        match c.messages[p.read]? with
        | some m =>
          let p := { p with read := p.read + 1 }
          match Wire.Message.decode m.frame with
          | .ok m => some (p.react m, c)
          | .error _ => some (p, c)
        | none =>
          if c.clientClosed then some ({ p with seen := p.seen ++ [.ended], done := true }, c)
          else none

/-- The peer has nothing left to do of its own accord. -/
def isIdle (p : Peer) : Bool := p.pending.isEmpty

end Peer
end Relay
end MarketFeed
