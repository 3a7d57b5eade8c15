import MarketFeed.Relay.Client
import MarketFeed.Relay.Peer

/-!
# MarketFeed.Relay.Scenario

A client and the scripted peers of its connections on a clock.

* `Network` — the client with its peers.
* `Command`, `Report` — what is done, and what is seen.
* `Scenario.run` — the reports of some commands.
-/

namespace MarketFeed
namespace Relay

structure Network where
  client : Client
  /-- The scripts of the connections in order; the last one counts for all later ones. -/
  scripts : List Script
  /-- The peers of the connections that had one do something. -/
  peers : List Peer

namespace Network

def new (config : RelayConfig) (scripts : List Script) : Network := ⟨.new config, scripts, []⟩

def scriptAt (w : Network) (n : Nat) : Script :=
  (w.scripts[n]?.orElse fun _ => w.scripts.getLast?).getD .silent

def peerAt (w : Network) (n : Nat) : Peer := w.peers[n]?.getD (.new (w.scriptAt n))

def allPeers (w : Network) : List Peer := (List.range w.client.connections.length).map w.peerAt

def setPeer (w : Network) (n : Nat) (p : Peer) : Network :=
  { w with peers := w.allPeers.set n p }

/-- The last connection. -/
def newest? (w : Network) : Option Nat :=
  if w.client.connections.isEmpty then none else some (w.client.connections.length - 1)

def stepPeer (now n : Nat) (w : Network) : Option Network :=
  match w.client.connections[n]? with
  | none => none
  | some c =>
    ((w.peerAt n).step now c).map fun (p, c) =>
      { w.setPeer n p with client := w.client.onConnection n fun _ => c }

def addActions (w : Network) (actions : List Action) : Network :=
  match w.newest? with
  | none => w
  | some n =>
    let p := w.peerAt n
    w.setPeer n { p with pending := p.pending ++ actions }

def closeNewest (w : Network) : Network :=
  match w.newest? with
  | none => w
  | some n => { w with client := w.client.onConnection n fun c => { c with peerClosed := true } }

def isNewestIdle (w : Network) : Bool :=
  match w.newest? with
  | none => true
  | some n => (w.peerAt n).isIdle

/-- What the peers have seen, which is forgotten at once. -/
def takeSeen (w : Network) : List (List Seen) × Network :=
  let peers := w.allPeers
  (peers.map Peer.seen, { w with peers := peers.map fun p => { p with seen := [] } })

inductive Actor where
  | client (a : Client.Actor)
  | peer (n : Nat)
  deriving DecidableEq, Repr

def system : System Network Actor where
  tasks w := (Client.system.tasks w.client).map .client ++
    (List.range w.client.connections.length).map .peer
  step now a w :=
    match a with
    | .client a => (Client.system.step now a w.client).map fun client => { w with client }
    | .peer n => w.stepPeer now n
  alarms w := Client.system.alarms w.client ++ w.peers.map Peer.busyUntil

end Network

inductive Command where
  | connect
  | publish (batch : List Tick)
  | close
  | connectAside
  | joinAside
  | abandonAside
  | peerSend (actions : List Action)
  | peerClose
  | stopListening

structure Report where
  /-- The result of a call that was waited for. -/
  got : Option (Except RelayError Unit)
  /-- What each peer has seen since the last report. -/
  seen : List (List Seen)
  state : ConnectionState
  subscriptions : Nat

/-- A run: the network on its clock, and the call beside the main course of events. -/
structure Scenario where
  timed : Timed Network
  aside : Option Nat

namespace Scenario

def new (config : RelayConfig) (scripts : List Script) : Scenario :=
  ⟨⟨0, .new config scripts⟩, none⟩

/-- Starts a call. -/
def start (s : Scenario) (task : Task) : Nat × Scenario :=
  let (id, client) := s.timed.world.client.call task
  (id, { s with timed := s.timed.update fun w => { w with client } })

/-- Waits for a call. -/
def join (s : Scenario) (id : Nat) : Option (Except RelayError Unit) × Scenario :=
  let isDone (w : Network) : Bool := (w.client.result? id).isSome
  let t := Network.system.await isDone s.timed
  (t.world.client.result? id,
    { s with timed := t.update fun w => { w with client := w.client.forget id } })

def callAndWait (s : Scenario) (task : Task) : Option (Except RelayError Unit) × Scenario :=
  let (id, s) := s.start task
  s.join id

def perform (s : Scenario) : Command → Option (Except RelayError Unit) × Scenario
  | .connect => s.callAndWait .connect
  | .publish batch => s.callAndWait (.publish batch false)
  | .close => (none, (s.callAndWait .close).2)
  | .connectAside =>
    let (id, s) := s.start .connect
    (none, { s with aside := some id })
  | .joinAside =>
    match s.aside with
    | some id => { s with aside := none }.join id
    | none => (none, s)
  | .abandonAside =>
    match s.aside with
    | some id =>
      (none, { timed := s.timed.update fun w => { w with client := w.client.abandon id }
               aside := none })
    | none => (none, s)
  | .peerSend actions =>
    let t := s.timed.update fun w => w.addActions actions
    (none, { s with timed := Network.system.await Network.isNewestIdle t })
  | .peerClose => (none, { s with timed := s.timed.update Network.closeNewest })
  | .stopListening =>
    (none, { s with timed := s.timed.update fun w =>
      { w with client := { w.client with listening := false } } })

def report (s : Scenario) (got : Option (Except RelayError Unit)) : Report × Scenario :=
  let t := Network.system.settle s.timed
  let (seen, w) := t.world.takeSeen
  (⟨got, seen, w.client.state, w.client.subscriptionCount⟩,
    { s with timed := { t with world := w } })

def run (s : Scenario) : List Command → List Report
  | [] => []
  | c :: rest =>
    let (got, s) := s.perform c
    let (r, s) := s.report got
    r :: run s rest

end Scenario
end Relay
end MarketFeed
