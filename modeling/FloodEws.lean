import FloodEws.RaftTypes
import FloodEws.LogRing
import FloodEws.Server
import FloodEws.Runs
import FloodEws.Cluster
import FloodEws.Schedule
import FloodEws.Moves
import FloodEws.Chains
import FloodEws.Spares
import FloodEws.Reenter
import FloodEws.Segments
import FloodEws.Underway
import FloodEws.Steps
import FloodEws.Persist
import FloodEws.Majority
import FloodEws.Replog
import FloodEws.Chosen
import FloodEws.Elect
import FloodEws.Order
import FloodEws.Apply
import FloodEws.Strand
import FloodEws.Slices
import FloodEws.Mirror
import FloodEws.Simulate
import FloodEws.Matching
import FloodEws.Commit
import FloodEws.Safety
import FloodEws.Complete
import FloodEws.Chunks
import FloodEws.Images
import FloodEws.Snapshot
import FloodEws.Tracker
import FloodEws.Egress
import FloodEws.Sensor
import FloodEws.Replay
import FloodEws.Ingress
import FloodEws.Threads
import FloodEws.Maps
import FloodEws.Actuator
import FloodEws.Policy
import FloodEws.Store
import FloodEws.Api
import FloodEws.Requests
import FloodEws.Pending
import FloodEws.Config
import FloodEws.Poller
import FloodEws.Views
import FloodEws.Watchdog
import FloodEws.Legal
import FloodEws.Window
import FloodEws.Telemetry
import FloodEws.Clients
import FloodEws.Flush
import FloodEws.Bytes
import FloodEws.Lorawan
import FloodEws.Office
import FloodEws.PreVote
import FloodEws.Reads
import FloodEws.Median
import FloodEws.Vote
import FloodEws.Middle
import FloodEws.TxQueue
import FloodEws.Sockets
import FloodEws.Audit
import FloodEws.Resolve
import FloodEws.Schema
import FloodEws.Regress
import FloodEws.Repair
import FloodEws.CatchUp
import FloodEws.Acks
import FloodEws.Latch
import FloodEws.Ballot
import FloodEws.Standing
import FloodEws.Quality
import FloodEws.Replicate
import FloodEws.Words
import FloodEws.Bounds
import FloodEws.Repeat
import FloodEws.InFlight
import FloodEws.Roles
import FloodEws.Callbacks
import FloodEws.Ring
import FloodEws.Highest
import FloodEws.Validator
import FloodEws.Goroutines
import FloodEws.Known
import FloodEws.Jsn
import FloodEws.Cycle
import FloodEws.Signer
import FloodEws.Nested
import FloodEws.Fleet
import FloodEws.Alike
import FloodEws.Replica
import FloodEws.Cadence
import FloodEws.Peers
import FloodEws.Rounds
import FloodEws.Provenance
import FloodEws.Uplink
import FloodEws.Access
import FloodEws.Ledger
