import PeerCensus.Bytes
import PeerCensus.Chain.Clock
import PeerCensus.Chain.Fork
import PeerCensus.Chain.Status
import PeerCensus.Chain.Subnets
import PeerCensus.Crawl.Config
import PeerCensus.Crawl.Progress
import PeerCensus.Crawl.Run
import PeerCensus.Crawl.Settings
import PeerCensus.Crawl.Timeline
import PeerCensus.Curve.Secp256k1
import PeerCensus.Discovery.Intake
import PeerCensus.Hash.Crc32c
import PeerCensus.Hash.Keccak
import PeerCensus.Host.Behaviour
import PeerCensus.Host.Error
import PeerCensus.Host.Probe
import PeerCensus.Host.Unconnected
import PeerCensus.Keeper.Machine
import PeerCensus.Keeper.Outcome
import PeerCensus.Keeper.Sequence
import PeerCensus.Net.Address
import PeerCensus.Net.Ip
import PeerCensus.Net.Multihash
import PeerCensus.Net.PeerId
import PeerCensus.Peer.Admission
import PeerCensus.Peer.Agent
import PeerCensus.Peer.Basic
import PeerCensus.Peer.Location
import PeerCensus.Peer.Score
import PeerCensus.Proofs.Chain.Digests
import PeerCensus.Proofs.Chain.Lag
import PeerCensus.Proofs.Chain.Slots
import PeerCensus.Proofs.Crawl.Schedule
import PeerCensus.Proofs.Curve.Encoding
import PeerCensus.Proofs.Curve.Prime
import PeerCensus.Proofs.Discovery.Course
import PeerCensus.Proofs.Discovery.FirstWins
import PeerCensus.Proofs.Discovery.Intake
import PeerCensus.Proofs.Discovery.Stopping
import PeerCensus.Proofs.Host.Attempt
import PeerCensus.Proofs.Keeper.Attempts
import PeerCensus.Proofs.Keeper.Capacity
import PeerCensus.Proofs.Keeper.Choice
import PeerCensus.Proofs.Keeper.Freshness
import PeerCensus.Proofs.Keeper.Leavings
import PeerCensus.Proofs.Keeper.Life
import PeerCensus.Proofs.Keeper.Outcome
import PeerCensus.Proofs.Keeper.Run
import PeerCensus.Proofs.Keeper.Selection
import PeerCensus.Proofs.Net.Address
import PeerCensus.Proofs.Net.Ip
import PeerCensus.Proofs.Net.PeerId
import PeerCensus.Proofs.Net.Spelling
import PeerCensus.Proofs.Peer.Constancy
import PeerCensus.Proofs.Peer.Identity
import PeerCensus.Proofs.Peer.Soundness
import PeerCensus.Proofs.Record.Endpoint
import PeerCensus.Proofs.Record.Forms
import PeerCensus.Proofs.Rpc.Call
import PeerCensus.Proofs.Rpc.Chunk
import PeerCensus.Proofs.Rpc.Consumption
import PeerCensus.Proofs.Rpc.Deadline
import PeerCensus.Proofs.Rpc.Exchange
import PeerCensus.Proofs.Rpc.Frame
import PeerCensus.Proofs.Rpc.Response
import PeerCensus.Proofs.Rpc.RoundTrip
import PeerCensus.Proofs.Rpc.Splitting
import PeerCensus.Proofs.Rpc.Truncation
import PeerCensus.Proofs.Snappy.Collecting
import PeerCensus.Proofs.Snappy.Element
import PeerCensus.Proofs.Snappy.Encoding
import PeerCensus.Proofs.Snappy.Framing
import PeerCensus.Proofs.Snappy.Grammar
import PeerCensus.Proofs.Snappy.Limit
import PeerCensus.Proofs.Snappy.Matcher
import PeerCensus.Proofs.Store.Events
import PeerCensus.Proofs.Store.Eviction
import PeerCensus.Proofs.Store.Listing
import PeerCensus.Proofs.Store.Novelty
import PeerCensus.Proofs.Store.Refinement
import PeerCensus.Proofs.Store.Registry
import PeerCensus.Proofs.Store.Staleness
import PeerCensus.Proofs.Store.Statistics
import PeerCensus.Proofs.Stream.Reading
import PeerCensus.Proofs.Stream.Waiting
import PeerCensus.Proofs.Text.Base58
import PeerCensus.Proofs.Text.Base64
import PeerCensus.Proofs.Text.Blank
import PeerCensus.Proofs.Text.Hex
import PeerCensus.Proofs.Text.Numeral
import PeerCensus.Proofs.Wire.Groups
import PeerCensus.Proofs.Wire.Ssz
import PeerCensus.Proofs.Wire.Varint
import PeerCensus.Record.NodeRecord
import PeerCensus.Record.Rlp
import PeerCensus.Record.Signed
import PeerCensus.Rpc.Error
import PeerCensus.Rpc.Exchange
import PeerCensus.Rpc.Frame
import PeerCensus.Rpc.Handshake
import PeerCensus.Rpc.Method
import PeerCensus.Snappy.Block
import PeerCensus.Snappy.Collector
import PeerCensus.Snappy.Frame
import PeerCensus.Snappy.Matcher
import PeerCensus.Store.History
import PeerCensus.Store.PeerStore
import PeerCensus.Store.Registry
import PeerCensus.Store.Statistics
import PeerCensus.Stream.Fault
import PeerCensus.Stream.Sink
import PeerCensus.Stream.Source
import PeerCensus.Stream.Varint
import PeerCensus.Text.Base58
import PeerCensus.Text.Base64
import PeerCensus.Text.Blank
import PeerCensus.Text.Hex
import PeerCensus.Text.Numeral
import PeerCensus.Text.Quoted
import PeerCensus.Text.Span
import PeerCensus.Text.Split
import PeerCensus.Text.Unpictured
import PeerCensus.Text.Utf8
import PeerCensus.Toml.Document
import PeerCensus.Toml.Moment
import PeerCensus.Toml.Number
import PeerCensus.Toml.Scan
import PeerCensus.Toml.Schema
import PeerCensus.Toml.Text
import PeerCensus.Toml.Value
import PeerCensus.Wire.Ssz
import PeerCensus.Wire.Varint
import PeerCensus.Proofs.Store.History
import PeerCensus.Proofs.Wire.Exact
import PeerCensus.Proofs.Rpc.Writing
import PeerCensus.Proofs.Peer.Agent
