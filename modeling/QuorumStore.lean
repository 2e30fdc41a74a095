import QuorumStore.Placement.Ring
import QuorumStore.Placement.Split
import QuorumStore.Scan.Numbers
import QuorumStore.Session
import QuorumStore.Json.Token
import QuorumStore.Json.Value
import QuorumStore.Json.DataModel
import QuorumStore.Yaml.Scalar
import QuorumStore.Yaml.Layout
import QuorumStore.Config.Load
import QuorumStore.Proofs.OrderedMap
import QuorumStore.Proofs.Quorum.Tally
import QuorumStore.Proofs.Quorum.Gathering
import QuorumStore.Proofs.Quorum.History
import QuorumStore.Proofs.Quorum.Drain
import QuorumStore.Proofs.Quorum.Verdict
import QuorumStore.Proofs.RowRange
import QuorumStore.Proofs.Ring.RangePlan
import QuorumStore.Proofs.Ring.Walk
import QuorumStore.Proofs.Ring.AddToken
import QuorumStore.Proofs.SortedList
import QuorumStore.Proofs.Memtable
import QuorumStore.Proofs.FlatTable
import QuorumStore.Proofs.Merge
import QuorumStore.Proofs.Merge.Parts
import QuorumStore.Proofs.Grouping
import QuorumStore.Proofs.Store
import QuorumStore.Proofs.Quorum.Coverage
import QuorumStore.Proofs.Quorum.Backers
import QuorumStore.Proofs.Routed
import QuorumStore.Proofs.Quorum.FailFast
import QuorumStore.Proofs.Interleaving.Run
import QuorumStore.Proofs.Interleaving.Mirror
import QuorumStore.Proofs.Interleaving.Underway
import QuorumStore.Proofs.Interleaving.Simulation
import QuorumStore.Proofs.Interleaving.Versions
import QuorumStore.Proofs.Interleaving.ReadYourWrites
import QuorumStore.Proofs.Interleaving.Exclusion
import QuorumStore.Proofs.Cursor
import QuorumStore.Proofs.Scan.Merged
import QuorumStore.Proofs.Scan.Tabulated
import QuorumStore.Proofs.Scan.Table
import QuorumStore.Proofs.Cluster.Alike
import QuorumStore.Proofs.Cluster.Calm
import QuorumStore.Proofs.Cluster.RangeScan
import QuorumStore.Proofs.Cluster.PointReads
import QuorumStore.Proofs.Scan.LiveRows
import QuorumStore.Proofs.Scan.OneCursor
import QuorumStore.Proofs.Scan.Pages
import QuorumStore.Proofs.Scan.Calls
import QuorumStore.Proofs.Scan.FirstPages
import QuorumStore.Proofs.Cluster.Paging
import QuorumStore.Proofs.Cluster.Broadcast
import QuorumStore.Proofs.Store.Restrict
import QuorumStore.Proofs.Store.Shard
import QuorumStore.Proofs.Store.Convergence
import QuorumStore.Proofs.Sharding.Calls
import QuorumStore.Proofs.Sharding.Shards
import QuorumStore.Proofs.Sharding.Requests
import QuorumStore.Proofs.Sharding.OneStore
import QuorumStore.Proofs.Quorum.Reads
import QuorumStore.Proofs.Views
import QuorumStore.Proofs.Cluster.Views
import QuorumStore.Proofs.Store.AllOrNothing
import QuorumStore.Proofs.Store.Metadata
import QuorumStore.Proofs.Cluster.Guarded
import QuorumStore.Proofs.Cluster.InTurn
import QuorumStore.Proofs.Cluster.Metadata
import QuorumStore.Proofs.Quorum.Shortage
import QuorumStore.Proofs.Quorum.Accounts
import QuorumStore.Proofs.Cluster.Accounts
import QuorumStore.Proofs.Interleaving.Moments
import QuorumStore.Proofs.Interleaving.Scans
import QuorumStore.Proofs.Interleaving.RangeReads
import QuorumStore.Proofs.Interleaving.Deletes
import QuorumStore.Proofs.Json.Tokens
import QuorumStore.Proofs.Json.Values
import QuorumStore.Proofs.Json.DataModel
import QuorumStore.Proofs.Cursor.Watched
import QuorumStore.Proofs.Cursor.Breaking
import QuorumStore.Proofs.Scan.Tidy
import QuorumStore.Proofs.Scan.Turns
import QuorumStore.Proofs.Scan.Collect
import QuorumStore.Proofs.Scan.Sizes
import QuorumStore.Proofs.Scan.Counts
