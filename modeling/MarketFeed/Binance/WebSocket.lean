import MarketFeed.Binance.Endpoint
import MarketFeed.Binance.Feed
import MarketFeed.Http.Target
import MarketFeed.Text.Utf8

/-!
# MarketFeed.Binance.WebSocket

The trade stream over WebSocket connections.

* `Frame` — what a server sends; control frames are answered, but carry nothing.
* `StreamServer` — a server that sends the same frames on every connection.
* `StreamServer.connect` — what comes of a connection to it.
* `StreamServer.feed` — what it offers.
-/

namespace MarketFeed
namespace Binance

inductive Frame where
  | text (s : String)
  | binary (bytes : List UInt8)
  | ping
  | pong
  deriving DecidableEq, Repr

/-- What happens after the frames. -/
inductive Ending where
  | stays
  | closes
  /-- The connection breaks. -/
  | breaks
  deriving DecidableEq, Repr

structure StreamServer where
  /-- The address that the server is reached at, without a path. -/
  address : String
  frames : List Frame
  ending : Ending
  /-- Connections are accepted. -/
  accepts : Bool
  deriving DecidableEq, Repr

/-- The item in a frame. -/
def Frame.item? : Frame → Option FeedItem
  | .text s => some (.text s)
  | .binary bytes => some (.text (Text.textOfBytes bytes))
  | .ping | .pong => none

namespace StreamServer

/-- The items of a connection. One that breaks ends with a failure. -/
def items (s : StreamServer) : List FeedItem :=
  s.frames.filterMap Frame.item? ++ if s.ending = .breaks then [.failure] else []

/-- The target that is asked for, if the address is the server's; and what comes on the connection
and after it, if there is one. -/
def connect (s : StreamServer) (url : String) : Option String × Option (List FeedItem × Ending) :=
  match Http.streamTarget? s.address url with
  | none => (none, none)
  | some target => (some target, if s.accepts then some (s.items, s.ending) else none)

/-- What a connection to an address comes to. -/
def opening (s : StreamServer) (url : String) : Opening :=
  match (s.connect url).2 with
  | some (items, ending) => ⟨0, some (.ofList items (ending ≠ .stays))⟩
  | none => .refused

/-- The streams of all symbols below a base address. -/
def feed (s : StreamServer) (base : String) : Feed :=
  ⟨fun _ symbol => s.opening (tradeStreamUrl base symbol)⟩

end StreamServer
end Binance
end MarketFeed
