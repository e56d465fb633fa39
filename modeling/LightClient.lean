import LightClient.Bytes
import LightClient.Checked
import LightClient.Digest.Sha256
import LightClient.Digest
import LightClient.Text.Base64Url
import LightClient.Text.Unseen
import LightClient.Text.Quoted
import LightClient.Request.Kind
import LightClient.Peer
import LightClient.Wire.Varint
import LightClient.Wire.Field
import LightClient.Wire.Message
import LightClient.Wire.Payloads
import LightClient.Header
import LightClient.Trie.Node
import LightClient.Trie.Walk
import LightClient.Trie.Build
import LightClient.Trie.Cursor
import LightClient.Trie.Slices
import LightClient.Trie.OrderedList
import LightClient.Request
import LightClient.Request.Key
import LightClient.HelperTrie
import LightClient.Error
import LightClient.Item
import LightClient.Verify
import LightClient.Decimal.Shortest
import LightClient.Decimal.FloatOrder
import LightClient.Settings.Numeral
import LightClient.Settings.Value
import LightClient.Settings.Json
import LightClient.Settings.Modules
import LightClient.Settings
import LightClient.Table
import LightClient.Registry.Record
import LightClient.Registry
import LightClient.ServerPool.DelaySeries
import LightClient.ServerPool.BackOff
import LightClient.ServerPool
import LightClient.ItemCache
import LightClient.ItemStore
import LightClient.FullNode.SampleChain
import LightClient.FullNode.Answer
import LightClient.FullNode.ChainStore
import LightClient.SectionRoots
import LightClient.Router
import LightClient.FullNode.Sections
import LightClient.Retrieval.Query
import LightClient.Retrieval.Binding
import LightClient.Retrieval.Caller
import LightClient.Retrieval.Flight
import LightClient.Retrieval.Pursuit
import LightClient.Retrieval.Client
import LightClient.Retrieval.Step
import LightClient.Simulation.Transport
import LightClient.Simulation.Agenda
import LightClient.Simulation.Libraries
import LightClient.Simulation
import LightClient.Proofs.Wire.Varint
import LightClient.Proofs.Wire.Fields
import LightClient.Proofs.Wire.Messages
import LightClient.Proofs.Digest
import LightClient.Proofs.Header
import LightClient.Proofs.Trie.Nodes
import LightClient.Proofs.Trie.Walks
import LightClient.Proofs.Trie.Growth
import LightClient.Proofs.Trie.Content
import LightClient.Proofs.Trie.Codec
import LightClient.Proofs.Trie.Proving
import LightClient.Proofs.Bytes
import LightClient.Proofs.HelperTrie
import LightClient.Proofs.Trie.Commitment
import LightClient.Proofs.Verification.Checks
import LightClient.Proofs.Verification.Uniqueness
import LightClient.Proofs.Table
import LightClient.Proofs.ItemStore.Cache
import LightClient.Proofs.ItemStore
import LightClient.Proofs.Registry
import LightClient.Proofs.Registry.Notifications
import LightClient.Proofs.Registry.Records
import LightClient.Proofs.Ranking
import LightClient.Proofs.Registry.Order
import LightClient.Proofs.Registry.Misconduct
import LightClient.Proofs.Router
import LightClient.Proofs.Router.Delivery
import LightClient.Proofs.Retrieval.Steps
import LightClient.Proofs.Retrieval.Runs
import LightClient.Proofs.Retrieval.Provenance
import LightClient.Proofs.Retrieval.Capacity
import LightClient.Proofs.Retrieval.Flights
import LightClient.Proofs.Retrieval.Attendance
import LightClient.Proofs.Retrieval.Progress
import LightClient.Proofs.Retrieval.History
import LightClient.Proofs.Retrieval.Records
import LightClient.Proofs.Retrieval.Outcomes
import LightClient.Proofs.Retrieval.SingleFlight
import LightClient.Proofs.Retrieval.Fates
import LightClient.Proofs.Retrieval.Notices
import LightClient.Proofs.Retrieval.Assignments
import LightClient.Proofs.Retrieval.Release
import LightClient.Proofs.Retrieval.Failover
import LightClient.Proofs.Retrieval.Departures
import LightClient.Proofs.Retrieval.Wakeups
import LightClient.Proofs.Retrieval.Choice
import LightClient.Proofs.Retrieval.Errors
import LightClient.Proofs.Wire.Lengths
import LightClient.Proofs.Wire.Exchanges
import LightClient.Proofs.Wire.Updates
import LightClient.Proofs.Wire.Faithfulness
import LightClient.Proofs.Trie.Traversal
import LightClient.Proofs.Trie.Serving
import LightClient.Proofs.Trie.Slices
import LightClient.Proofs.Trie.Evidence
import LightClient.Proofs.Request.Key
import LightClient.Proofs.Verification.HeaderRanges
import LightClient.Proofs.Verification.Acceptance
import LightClient.Proofs.Retrieval.SectionBounds
import LightClient.Proofs.FullNode.Blocks
import LightClient.Proofs.FullNode.Sections
import LightClient.Proofs.FullNode.Answers
import LightClient.Proofs.FullNode.Completeness
import LightClient.Proofs.FullNode.RangeBounds
import LightClient.Proofs.FullNode.ChainStore
import LightClient.Proofs.FullNode.Replies
import LightClient.Proofs.Since
import LightClient.Proofs.ServerPool.Candidacy
import LightClient.Proofs.ServerPool.Connections
import LightClient.Proofs.ServerPool.Suggestions
import LightClient.Proofs.ServerPool.Order
import LightClient.Proofs.ServerPool.Bookkeeping
import LightClient.Proofs.ServerPool.Delays
import LightClient.Proofs.ServerPool.Intervals
import LightClient.Proofs.Simulation.Libraries
import LightClient.Proofs.ItemStore.Recency
