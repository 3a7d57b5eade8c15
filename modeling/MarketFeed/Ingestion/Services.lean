import MarketFeed.Binance.Connector
import MarketFeed.Binance.WebSocket
import MarketFeed.Collector.Surroundings
import MarketFeed.Ingestion.Backend
import MarketFeed.Relay.Scenario

/-!
# MarketFeed.Ingestion.Services

What the program works with while it runs.

* `Servers` — what it can reach.
* `Services` — the connector to Binance, the backend and the relay.
* `Services.surroundings` — what a collector sees of them.
* `Services.system` — what they do by themselves.
-/

namespace MarketFeed
namespace Ingestion

/-- The servers; whatever is not here refuses connections. -/
structure Servers where
  http : Http.Server
  streams : Binance.StreamServer
  relayPort : UInt16
  /-- What the relay's server does on each connection. -/
  relay : List Relay.Script
  databaseAddress : String
  database : Store.Server

structure Services where
  connector : Binance.Connector
  backend : Backend
  relay : Relay.Network

namespace Services

/-! ## What a collector does with them -/

def fetch (_now : Nat) (symbol : String) (request : HistoryRequest) (s : Services) :
    Nat × Services :=
  let (id, connector) := s.connector.fetch symbol request
  (id, { s with connector })

def fetched? (_now id : Nat) (s : Services) :
    Option (Except VenueError (List Binance.Kline) × Services) :=
  (s.connector.fetched? id).map fun r => (r, { s with connector := s.connector.forgetFetch id })

/-- A stream of the connector can always be had; it opens its feed by itself. -/
def openStream (_now : Nat) (symbol : String) (s : Services) : Except VenueError Nat × Services :=
  let (id, connector) := s.connector.openStream symbol
  (.ok id, { s with connector })

def receive (id : Nat) (s : Services) : Received Binance.Trade × Services :=
  let (r, connector) := s.connector.receive id
  (r, { s with connector })

def dropStream (id : Nat) (s : Services) : Services :=
  { s with connector := s.connector.dropStream id }

def persistBars (_now : Nat) (rows : List Bar) (s : Services) : Except StoreError Nat × Services :=
  let (r, backend) := s.backend.persistBars rows
  (r, { s with backend })

def persistTicks (_now : Nat) (rows : List Tick) (s : Services) :
    Except StoreError Nat × Services :=
  let (r, backend) := s.backend.persistTicks rows
  (r, { s with backend })

def setClient (s : Services) (client : Relay.Client) : Services :=
  { s with relay := { s.relay with client } }

def publish (_now : Nat) (rows : List Tick) (s : Services) : Nat × Services :=
  let (id, client) := s.relay.client.call (.publish rows false)
  (id, s.setClient client)

def published? (id : Nat) (s : Services) : Option (Except String Unit × Services) :=
  (s.relay.client.result? id).map fun r =>
    (r.mapError Relay.RelayError.message, s.setClient (s.relay.client.forget id))

/-- Without a relay, ticks are not sent on. -/
def surroundings (relayed : Bool) :
    Collector.Surroundings Services String Binance.Kline Binance.Trade where
  fetch := fetch
  fetched? := fetched?
  openStream := openStream
  receive := receive
  dropStream := dropStream
  persistBars := persistBars
  persistTicks := persistTicks
  downstream := if relayed then some ⟨publish, published?⟩ else none

/-! ## What they do by themselves -/

def setConnector (s : Services) (connector : Binance.Connector) : Services := { s with connector }

def setRelay (s : Services) (relay : Relay.Network) : Services := { s with relay }

def system : System Services (Binance.Connector.Move ⊕ Relay.Network.Actor) :=
  (Binance.Connector.system.within connector setConnector).beside
    (Relay.Network.system.within relay setRelay)

/-! ## What is seen of them -/

/-- The targets at the server for streams that were asked for. -/
def streamTargets (server : Binance.StreamServer) (s : Services) : List String :=
  (s.connector.calls.filterMap fun p =>
    match p.2 with
    | .opened symbol => some (Binance.tradeStreamUrl s.connector.config.wsBase symbol)
    | .request _ => none).filterMap (Http.streamTarget? server.address)

/-- What the relay's server has seen on each connection. -/
def relaySeen (s : Services) : List (List Relay.Seen) := s.relay.allPeers.map Relay.Peer.seen

def relayEvents (s : Services) : Nat := s.relaySeen.flatten.length

end Services
end Ingestion
end MarketFeed
