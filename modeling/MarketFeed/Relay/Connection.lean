import MarketFeed.Relay.Error

/-!
# MarketFeed.Relay.Connection

* `Connection` — the two directions of one connection, as the client sees it, with the log of
  everything that it wrote and took.
* `Connection.write` — sends a message. What is written after the peer has closed is lost: the
  first message unnoticed, every later one with an error.
* `Connection.next` — takes the next frame off the bytes that have arrived.
-/

namespace MarketFeed
namespace Relay

/-- What passes between the client and a connection. -/
inductive Exchange where
  | wrote (m : Wire.Message)
  /-- A frame was taken off the bytes that had arrived. -/
  | took (f : Wire.Frame)
  deriving DecidableEq, Repr

def Exchange.message? : Exchange → Option Wire.Message
  | .wrote m => some m
  | .took _ => none

structure Connection where
  /-- The bytes that have arrived and were not read yet. -/
  incoming : List UInt8
  /-- What the client has written and taken, in order. -/
  log : List Exchange
  peerClosed : Bool
  clientClosed : Bool
  /-- Something was written after the peer had closed. -/
  lost : Bool
  deriving DecidableEq, Repr

/-- What a reader finds on a connection. -/
inductive Arrival where
  | frame (f : Wire.Frame)
  /-- No more frames, and why. -/
  | failure (e : RelayError)
  /-- The next frame is not complete. -/
  | nothing
  deriving DecidableEq, Repr

namespace Connection

def fresh : Connection := ⟨[], [], false, false, false⟩

instance : Inhabited Connection := ⟨fresh⟩

/-- All messages that the client has written, in order. -/
def messages (c : Connection) : List Wire.Message := c.log.filterMap Exchange.message?

def write (c : Connection) (m : Wire.Message) : Except RelayError Connection :=
  if c.peerClosed then
    if c.lost then .error (.io .brokenPipe)
    else .ok { c with log := c.log ++ [.wrote m], lost := true }
  else .ok { c with log := c.log ++ [.wrote m] }

def close (c : Connection) : Connection := { c with clientClosed := true }

def next (c : Connection) : Arrival × Connection :=
  match Wire.Frame.next c.incoming with
  | .frame f rest => (.frame f, { c with incoming := rest, log := c.log ++ [.took f] })
  | .undersized size rest => (.failure (.malformed (.shortFrame size)), { c with incoming := rest })
  | .incomplete =>
    if c.peerClosed then (.failure (.io .endOfInput), { c with incoming := [] }) else (.nothing, c)

end Connection
end Relay
end MarketFeed
