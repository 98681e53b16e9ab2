import KloudlensAggregator.Foundation.Run
import KloudlensAggregator.Foundation.JsonScanner
import KloudlensAggregator.Foundation.JsonDecoder
import KloudlensAggregator.Foundation.JsonText
import KloudlensAggregator.Envwal.Record
import KloudlensAggregator.Envwal.Wal
import KloudlensAggregator.Envwal.ReadFrom
import KloudlensAggregator.Foundation.Slice
import KloudlensAggregator.Envwal.World
import KloudlensAggregator.Envwal.Layout
import KloudlensAggregator.Envwal.Runs
import KloudlensAggregator.Envwal.Restart
import KloudlensAggregator.Envwal.Retention
import KloudlensAggregator.Envwal.Tracking
import KloudlensAggregator.Envwal.Replay
import KloudlensAggregator.Envwal.Crash
import KloudlensAggregator.Aggregator.Emit
import KloudlensAggregator.Aggregator.Envelope
import KloudlensAggregator.Aggregator.ReExport
import KloudlensAggregator.Aggregator.Resume
import KloudlensAggregator.Aggregator.Gap
import KloudlensAggregator.Aggregator.Handoff
import KloudlensAggregator.ClusterPeers.Registry
import KloudlensAggregator.ClusterPeers.History
import KloudlensAggregator.ClusterPeers.Refinement
import KloudlensAggregator.ClusterPeers.Ownership
import KloudlensAggregator.Aggregator.CursorStore
import KloudlensAggregator.ClusterPeers.Advertise
import KloudlensAggregator.Aggregator.FanIn
import KloudlensAggregator.Aggregator.Merge
import KloudlensAggregator.Aggregator.Lifecycle
import KloudlensAggregator.ClusterPeers.Withdraw
import KloudlensAggregator.Aggregator.Fleet
import KloudlensAggregator.Aggregator.FlushLoop
import KloudlensAggregator.Aggregator.FanOut
import KloudlensAggregator.Aggregator.SubscriberStats
import KloudlensAggregator.Aggregator.Shutdown
import KloudlensAggregator.ClusterPeers.Preference
import KloudlensAggregator.Foundation.Overwrite
import KloudlensAggregator.Discovery.Watch
import KloudlensAggregator.Discovery.Lookups
import KloudlensAggregator.Discovery.OrderFree
import KloudlensAggregator.Discovery.Backends
import KloudlensAggregator.Discovery.HostNetwork
import KloudlensAggregator.Discovery.EndpointSlice
import KloudlensAggregator.Aggregator.Discovered
import KloudlensAggregator.ClusterPeers.Addresses
import KloudlensAggregator.Aggregator.ReplicaEdges
import KloudlensAggregator.ClusterPeers.Shared
import KloudlensAggregator.ClusterPeers.Replicas
import KloudlensAggregator.Envwal.Faults
import KloudlensAggregator.Envwal.Traces
import KloudlensAggregator.Envwal.Trimming
import KloudlensAggregator.Aggregator.ResumePoint
import KloudlensAggregator.Foundation.Lines
import KloudlensAggregator.Aggregator.Ndjson
import KloudlensAggregator.Discovery.WatchLoop
import KloudlensAggregator.Foundation.Separated
import KloudlensAggregator.Discovery.Backoff
import KloudlensAggregator.Aggregator.Stream
import KloudlensAggregator.Aggregator.Sessions
import KloudlensAggregator.Discovery.Mirror
import KloudlensAggregator.Discovery.Indexes
import KloudlensAggregator.Aggregator.Pipeline
import KloudlensAggregator.Aggregator.Provenance
import KloudlensAggregator.Aggregator.Stopping
import KloudlensAggregator.Aggregator.WakeUp
import KloudlensAggregator.Envwal.Footprint
import KloudlensAggregator.ClusterPeers.Residency
import KloudlensAggregator.Envwal.Upkeep
import KloudlensAggregator.Aggregator.Uplink
import KloudlensAggregator.Aggregator.Reconnect
import KloudlensAggregator.Aggregator.Delivered
