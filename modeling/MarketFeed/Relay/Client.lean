import MarketFeed.Relay.Config
import MarketFeed.Relay.Session
import MarketFeed.Tasks.Lock
import MarketFeed.Tasks.System

/-!
# MarketFeed.Relay.Client

The client of the relay. Any number of calls may be under way; two locks keep them apart: one for
dialling, logging on and closing, one for the session, which is held while a batch is sent.

* `Call` — a call under way, with the point at which it may have to wait.
* `Client` — the state that the calls share, their connections, and the calls.
* `Client.step` — a call goes on to the next such point.
* `Client.read` — the reader of the session goes on.

A batch whose connection fails is sent once more on a fresh connection.
-/

namespace MarketFeed
namespace Relay

/-- The protocol's version that the client speaks. -/
def protocolVersion : UInt16 := 8

/-- The result of a logon that has succeeded. -/
def logonAccepted : UInt16 := 1

inductive Task where
  | connect
  /-- Sends a batch; `again` in its second attempt. -/
  | publish (batch : List Tick) (again : Bool)
  | close

/-- Where a call may have to wait. -/
inductive Stage where
  /-- For the dialling lock, to connect. -/
  | beforeConnect
  /-- For the session, to see whether it is alive. -/
  | beforeInspection
  /-- For the connection to come about. -/
  | dialling
  /-- For the answer to the logon. -/
  | loggingOn (connection deadline : Nat)
  /-- For the session, to put the new one in its place. -/
  | beforeInstallation (connection : Nat)
  /-- For the session, to send the batch. -/
  | beforeSending
  /-- At the next trade of the batch. -/
  | sending (rest : List Tick)
  /-- For the answer to the subscription of the next trade. -/
  | subscribing (tick : Tick) (rest : List Tick) (id : UInt32) (deadline : Nat)
  /-- For the dialling lock, to drop the session before the second attempt; `cause` is why the
  first one has failed. -/
  | beforeTeardown (cause : RelayError)
  /-- For the session, to drop it. -/
  | tearingDown (cause : RelayError)
  /-- For the dialling lock, to close. -/
  | beforeClose
  /-- For the session, to log off. -/
  | closing
  | finished (result : Except RelayError Unit)

structure Call where
  id : Nat
  task : Task
  stage : Stage

structure Client where
  config : RelayConfig
  session : Option Session
  dialLock : Lock
  sessionLock : Lock
  /-- A call is dialling or logging on. -/
  connecting : Bool
  /-- All connections so far, in the order in which they were dialled. -/
  connections : List Connection
  /-- The server takes connections. -/
  listening : Bool
  calls : List Call
  nextCall : Nat

inductive ConnectionState where
  | disconnected
  | connecting
  | connected
  deriving DecidableEq, Repr

namespace Client

def new (config : RelayConfig) : Client :=
  ⟨config, none, .free, .free, false, [], true, [], 0⟩

def state (c : Client) : ConnectionState :=
  if c.connecting then .connecting
  else
    match c.session with
    | some s => if s.alive then .connected else .disconnected
    | none => .disconnected

def subscriptionCount (c : Client) : Nat := (c.session.map fun s => s.subscriptions.length).getD 0

/-! ## Connections -/

def onConnection (c : Client) (n : Nat) (f : Connection → Connection) : Client :=
  { c with connections := c.connections.modify n f }

/-- Writes a message on a connection. -/
def write (c : Client) (n : Nat) (m : Wire.Message) : Except RelayError Client :=
  match c.connections[n]? with
  | some k => (k.write m).map fun k => c.onConnection n fun _ => k
  | none => .error .notConnected

/-- Forgets the session and closes its connection. -/
def dropSession (c : Client) : Client :=
  match c.session with
  | some s => { c.onConnection s.connection Connection.close with session := none }
  | none => c

/-! ## Calls -/

def setStage (c : Client) (id : Nat) (stage : Stage) : Client :=
  { c with calls := c.calls.map fun k => if k.id = id then { k with stage } else k }

def setTask (c : Client) (id : Nat) (task : Task) : Client :=
  { c with calls := c.calls.map fun k => if k.id = id then { k with task } else k }

def joinDial (c : Client) (id : Nat) : Client := { c with dialLock := c.dialLock.join id }

def leaveDial (c : Client) (id : Nat) : Client := { c with dialLock := c.dialLock.leave id }

def joinSession (c : Client) (id : Nat) : Client := { c with sessionLock := c.sessionLock.join id }

def leaveSession (c : Client) (id : Nat) : Client :=
  { c with sessionLock := c.sessionLock.leave id }

def finish (c : Client) (id : Nat) (result : Except RelayError Unit) : Client :=
  c.setStage id (.finished result)

/-- The first stage of a task. An empty batch is done at once. -/
def begin (c : Client) (id : Nat) (task : Task) : Client :=
  match task with
  | .connect => (c.joinDial id).setStage id .beforeConnect
  | .publish [] _ => c.finish id (.ok ())
  | .publish _ _ => (c.joinDial id).setStage id .beforeConnect
  | .close => (c.joinDial id).setStage id .beforeClose

/-- Starts a call and tells its number. -/
def call (c : Client) (task : Task) : Nat × Client :=
  let id := c.nextCall
  let c := { c with nextCall := id + 1, calls := c.calls ++ [Call.mk id task .beforeConnect] }
  (id, c.begin id task)

def result? (c : Client) (id : Nat) : Option (Except RelayError Unit) :=
  match c.calls.find? (·.id = id) with
  | some ⟨_, _, .finished r⟩ => some r
  | _ => none

/-- Forgets a call that has finished. -/
def forget (c : Client) (id : Nat) : Client := { c with calls := c.calls.filter (·.id ≠ id) }

/-- The connection that only this call knows of. -/
def ownConnection? (k : Call) : Option Nat :=
  match k.stage with
  | .loggingOn n _ => some n
  | .beforeInstallation n => some n
  | _ => none

def isDialling (k : Call) : Bool :=
  match k.stage with
  | .dialling => true
  | .loggingOn _ _ => true
  | _ => false

/-- Gives up a call wherever it is. -/
def abandon (c : Client) (id : Nat) : Client :=
  match c.calls.find? (·.id = id) with
  | none => c
  | some k =>
    let c := match ownConnection? k with
      | some n => c.onConnection n Connection.close
      | none => c
    let c := if isDialling k then { c with connecting := false } else c
    ((c.leaveDial id).leaveSession id).forget id

/-! ## Going on -/

/-- An attempt has failed. A batch that failed with its connection is tried again once. -/
def failAttempt (c : Client) (k : Call) (e : RelayError) : Client :=
  match k.task with
  | .publish _ false =>
    if e.isConnectionError then (c.joinDial k.id).setStage k.id (.beforeTeardown e)
    else c.finish k.id (.error e)
  | _ => c.finish k.id (.error e)

/-- The dialling part of a call has failed. -/
def failConnect (c : Client) (k : Call) (e : RelayError) : Client :=
  ({ c with connecting := false }.leaveDial k.id).failAttempt k e

/-- The logon on a connection has failed. -/
def failLogon (c : Client) (k : Call) (n : Nat) (e : RelayError) : Client :=
  (c.onConnection n Connection.close).failConnect k e

/-- The sending part of a call has failed. A session that cannot be trusted any more is dropped. -/
def failSending (c : Client) (k : Call) (e : RelayError) : Client :=
  let c := if e.isConnectionError || e.isProtocolViolation then c.dropSession else c
  (c.leaveSession k.id).failAttempt k e

/-- There is a live session. -/
def connected (c : Client) (k : Call) : Client :=
  let c := (c.leaveSession k.id).leaveDial k.id
  match k.task with
  | .publish _ _ => (c.joinSession k.id).setStage k.id .beforeSending
  | _ => c.finish k.id (.ok ())

def logonRequest (c : RelayConfig) : Wire.Message :=
  .logonRequest protocolVersion c.username c.password c.heartbeatSeconds c.clientName

def deadline (c : Client) (now : Nat) : Nat := now + c.config.handshakeTimeout.toNanos

/-- Dials and sends the logon. -/
def dial (c : Client) (k : Call) (now : Nat) : Client :=
  if c.listening then
    let n := c.connections.length
    let c := { c with connections := c.connections ++ [Connection.fresh] }
    match c.write n (logonRequest c.config) with
    | .ok c => c.setStage k.id (.loggingOn n (c.deadline now))
    | .error e => c.failLogon k n e
  else c.failConnect k (.io .refused)

/-- What a frame means while the answer to the logon is due. -/
def judgeLogon (c : Client) (k : Call) (n : Nat) (f : Wire.Frame) : Client :=
  match Wire.Message.decode f with
  | .error e => c.failLogon k n (.ofDecodeError e)
  | .ok (.heartbeat _) => c
  | .ok (.logonResponse _ result text) =>
    if result = logonAccepted then
      ({ c with connecting := false }.joinSession k.id).setStage k.id (.beforeInstallation n)
    else c.failLogon k n (.logonRejected text)
  | .ok m => c.failLogon k n (.unexpectedMessage m.kind.code)

/-- Waits for the answer to the logon. -/
def logOn? (c : Client) (k : Call) (n due now : Nat) : Option Client :=
  match c.connections[n]? with
  | none => none
  | some connection =>
    match connection.next with
    | (.frame f, connection) => some ((c.onConnection n fun _ => connection).judgeLogon k n f)
    | (.failure e, connection) => some ((c.onConnection n fun _ => connection).failLogon k n e)
    | (.nothing, _) =>
      if due ≤ now then some (c.failLogon k n (.timeout "logon response")) else none

/-- Sends the next trade of a batch on the session, subscribing first where that is due. -/
def sendNext (c : Client) (k : Call) (s : Session) (rest : List Tick) (now : Nat) : Client :=
  match rest with
  | [] => (c.leaveSession k.id).finish k.id (.ok ())
  | t :: rest =>
    match s.idOf? ⟨t.symbol, t.exchange⟩ with
    | some id =>
      match c.write s.connection (trade id t) with
      | .ok c => c.setStage k.id (.sending rest)
      | .error e => c.failSending k e
    | none =>
      match s.discardStale with
      | (some e, s) => { c with session := some s }.failSending k e
      | (none, s) =>
        let (id, s) := s.takeId
        let c := { c with session := some s }
        match c.write s.connection (.subscribe id t.symbol t.exchange) with
        | .ok c => c.setStage k.id (.subscribing t rest id (c.deadline now))
        | .error e => c.failSending k e

/-- Waits for the answer to a subscription, and sends the trade it was for. -/
def subscribe? (c : Client) (k : Call) (s : Session) (t : Tick) (rest : List Tick) (id : UInt32)
    (due now : Nat) : Option Client :=
  match s.answer id ⟨t.symbol, t.exchange⟩ with
  | none => if due ≤ now then some (c.failSending k (.timeout "subscription response")) else none
  | some (.error e, s) => some ({ c with session := some s }.failSending k e)
  | some (.ok (), s) =>
    let s := s.accept ⟨t.symbol, t.exchange⟩ id
    let c := { c with session := some s }
    match c.write s.connection (trade id t) with
    | .ok c => some (c.setStage k.id (.sending rest))
    | .error e => some (c.failSending k e)

/-- Logs off and closes the connection. A session that is dead already is closed all the same. -/
def logOff (c : Client) : Client :=
  match c.session with
  | none => c
  | some s =>
    let c := match c.write s.connection (.logoff "client closing") with
      | .ok c => c
      | .error _ => c
    c.dropSession

/-- A call goes on; none while it waits. -/
def step (now : Nat) (k : Call) (c : Client) : Option Client :=
  match k.stage with
  | .beforeConnect =>
    if c.dialLock.heldBy k.id then some ((c.joinSession k.id).setStage k.id .beforeInspection)
    else none
  | .beforeInspection =>
    if c.sessionLock.heldBy k.id then
      match c.session with
      | some s =>
        if s.alive then some (c.connected k)
        else
          let c := (c.dropSession.leaveSession k.id).setStage k.id .dialling
          some { c with connecting := true }
      | none => some { (c.leaveSession k.id).setStage k.id .dialling with connecting := true }
    else none
  | .dialling => some (c.dial k now)
  | .loggingOn n due => c.logOn? k n due now
  | .beforeInstallation n =>
    if c.sessionLock.heldBy k.id then
      some ({ c.dropSession with session := some (.start n) }.connected k)
    else none
  | .beforeSending =>
    if c.sessionLock.heldBy k.id then
      match c.session, k.task with
      | some s, .publish batch _ =>
        if s.alive then some (c.setStage k.id (.sending batch))
        else some (c.failSending k s.terminalError)
      | _, _ => some (c.failSending k .notConnected)
    else none
  | .sending rest =>
    match c.session with
    | some s => some (c.sendNext k s rest now)
    | none => some (c.failSending k .notConnected)
  | .subscribing t rest id due =>
    match c.session with
    | some s => c.subscribe? k s t rest id due now
    | none => some (c.failSending k .notConnected)
  | .beforeTeardown cause =>
    if c.dialLock.heldBy k.id then some ((c.joinSession k.id).setStage k.id (.tearingDown cause))
    else none
  | .tearingDown _ =>
    if c.sessionLock.heldBy k.id then
      let c := (c.dropSession.leaveSession k.id).leaveDial k.id
      let task := match k.task with
        | .publish batch _ => Task.publish batch true
        | task => task
      some (((c.setTask k.id task).joinDial k.id).setStage k.id .beforeConnect)
    else none
  | .beforeClose =>
    if c.dialLock.heldBy k.id then some ((c.joinSession k.id).setStage k.id .closing) else none
  | .closing =>
    if c.sessionLock.heldBy k.id then
      some (((c.logOff.leaveSession k.id).leaveDial k.id).finish k.id (.ok ()))
    else none
  | .finished _ => none

/-- The reader of the session goes on; none while nothing arrives. -/
def read (c : Client) : Option Client :=
  match c.session with
  | none => none
  | some s =>
    if s.alive then
      match c.connections[s.connection]? with
      | none => none
      | some connection =>
        let (arrival, connection) := connection.next
        (s.receive arrival).map fun s =>
          { c.onConnection s.connection (fun _ => connection) with session := some s }
    else none

/-- The time that a call waits for. -/
def alarm? (k : Call) : Option Nat :=
  match k.stage with
  | .loggingOn _ due => some due
  | .subscribing _ _ _ due => some due
  | _ => none

/-- The tasks of a client. -/
inductive Actor where
  | call (id : Nat)
  | reader
  deriving DecidableEq, Repr

def system : System Client Actor where
  tasks c := c.calls.map (fun k => .call k.id) ++ [.reader]
  step now a c :=
    match a with
    | .call id => (c.calls.find? (·.id = id)).bind fun k => c.step now k
    | .reader => c.read
  alarms c := c.calls.filterMap alarm?

end Client
end Relay
end MarketFeed
