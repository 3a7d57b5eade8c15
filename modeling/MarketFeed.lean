import MarketFeed.Main
import MarketFeed.Json.Reader
import MarketFeed.Json.Printer
import MarketFeed.Decimal.Double
import MarketFeed.Market.Bar
import MarketFeed.Market.History
import MarketFeed.Binance.Scenario
import MarketFeed.Ibkr.Scenario
import MarketFeed.Collector.Scenario
import MarketFeed.Pacing.Scenario
import MarketFeed.Proofs.Text.Utf8
import MarketFeed.Proofs.Time.Instant
import MarketFeed.Proofs.Wire.Stream
import MarketFeed.Proofs.Wire.RoundTrip
import MarketFeed.Proofs.Wire.Canonical
import MarketFeed.Proofs.Tasks.System
import MarketFeed.Proofs.Pacing.Window
import MarketFeed.Proofs.Relay.Steps
import MarketFeed.Proofs.Relay.Network
import MarketFeed.Proofs.Relay.Locks
import MarketFeed.Proofs.Relay.Log
import MarketFeed.Proofs.Relay.Session
import MarketFeed.Proofs.Relay.Discipline
import MarketFeed.Proofs.Relay.Attempt
import MarketFeed.Proofs.Relay.Retry
import MarketFeed.Proofs.Relay.Obliging
import MarketFeed.Proofs.Relay.Unsolicited
import MarketFeed.Proofs.Relay.Story
import MarketFeed.Proofs.Relay.Connections
import MarketFeed.Proofs.Relay.Turns
import MarketFeed.Proofs.Relay.Frames
import MarketFeed.Proofs.Relay.Unmixed
import MarketFeed.Proofs.Relay.Teardown
import MarketFeed.Proofs.Relay.Ending
import MarketFeed.Proofs.Relay.Redial
import MarketFeed.Proofs.Relay.Logon
import MarketFeed.Proofs.Relay.Handshake
import MarketFeed.Proofs.Relay.Akin
import MarketFeed.Proofs.Relay.Twins
import MarketFeed.Proofs.Relay.Heartbeats
import MarketFeed.Proofs.Relay.Standing
import MarketFeed.Proofs.Relay.Outcomes
import MarketFeed.Proofs.Binance.Offer
import MarketFeed.Proofs.Binance.Steps
import MarketFeed.Proofs.Binance.Trace
import MarketFeed.Proofs.Binance.Trail
import MarketFeed.Proofs.Binance.Closing
import MarketFeed.Proofs.Binance.Waiting
import MarketFeed.Proofs.Binance.Liveness
import MarketFeed.Proofs.Binance.Delivery
import MarketFeed.Proofs.Binance.Stream
import MarketFeed.Proofs.Collector.Alike
import MarketFeed.Proofs.Collector.Stages
import MarketFeed.Proofs.Collector.Calls
import MarketFeed.Proofs.Collector.Events
import MarketFeed.Proofs.Collector.Lockstep
import MarketFeed.Proofs.Collector.Ingest
import MarketFeed.Proofs.Collector.Batches
import MarketFeed.Proofs.Collector.Taking
import MarketFeed.Proofs.Collector.Arrivals
import MarketFeed.Proofs.Collector.Trades
import MarketFeed.Proofs.Collector.Stopping
import MarketFeed.Proofs.Store.Upsert
import MarketFeed.Proofs.Store.Tables
import MarketFeed.Proofs.Store.Sinks
import MarketFeed.Proofs.Collector.Keeping
import MarketFeed.Proofs.Collector.Passes
import MarketFeed.Proofs.Collector.Backfill
import MarketFeed.Proofs.Ibkr.Steps
import MarketFeed.Proofs.Ibkr.Sessions
import MarketFeed.Proofs.Ibkr.Posts
import MarketFeed.Proofs.Ibkr.Waiting
import MarketFeed.Proofs.Ibkr.Streams
import MarketFeed.Proofs.Ibkr.Grants
import MarketFeed.Proofs.Ibkr.Tickers
import MarketFeed.Proofs.Ibkr.Visits
import MarketFeed.Proofs.Ibkr.Accounts
import MarketFeed.Proofs.Ibkr.Attended
import MarketFeed.Proofs.Ibkr.Forwarding
import MarketFeed.Proofs.Pacing.Calls
import MarketFeed.Proofs.Collector.Parts
import MarketFeed.Proofs.Tasks.Eager
import MarketFeed.Proofs.Collector.Clocked
import MarketFeed.Proofs.Collector.Isolation
import MarketFeed.Proofs.Wire.FixedText
import MarketFeed.Proofs.Store.LastWrite
import MarketFeed.Proofs.Store.Transaction
import MarketFeed.Proofs.Pacing.Punctual
import MarketFeed.Proofs.Pacing.Timetable
import MarketFeed.Proofs.Text.Digits
import MarketFeed.Proofs.Text.Blank
import MarketFeed.Proofs.Time.Span
import MarketFeed.Proofs.Ibkr.Lengths
import MarketFeed.Proofs.Ibkr.Coverage
import MarketFeed.Proofs.Market.Codes
import MarketFeed.Proofs.Json.Literals
import MarketFeed.Proofs.Json.Strings
import MarketFeed.Proofs.Json.Lexing
import MarketFeed.Proofs.Json.Grammar
import MarketFeed.Proofs.Json.Meaning
import MarketFeed.Proofs.Json.Alike
import MarketFeed.Proofs.Binance.Frames
import MarketFeed.Proofs.Text.Case
import MarketFeed.Proofs.CommandLine.Backfill
import MarketFeed.Proofs.Ingestion.Passes
import MarketFeed.Proofs.Ingestion.Backfill
import MarketFeed.Proofs.Time.Calendar
import MarketFeed.Proofs.Time.Text
import MarketFeed.Proofs.Decimal.Text
import MarketFeed.Proofs.Json.Values
import MarketFeed.Proofs.Json.Printing
import MarketFeed.Proofs.Json.Fields
import MarketFeed.Proofs.Market.Records
