import ExplorerIndexer.Library.Table
import ExplorerIndexer.Library.Script
import ExplorerIndexer.Library.Transition
import ExplorerIndexer.Library.Settle
import ExplorerIndexer.Library.Agents
import ExplorerIndexer.Library.Numeral
import ExplorerIndexer.Library.Fetch
import ExplorerIndexer.Library.Page
import ExplorerIndexer.Library.Walk
import ExplorerIndexer.Library.Moment
import ExplorerIndexer.Library.Feed
import ExplorerIndexer.Library.Abi
import ExplorerIndexer.Library.Telescope
import ExplorerIndexer.Library.SortedMap
import ExplorerIndexer.Library.Tiling
import ExplorerIndexer.Chain
import ExplorerIndexer.Extract
import ExplorerIndexer.HeaderPacking
import ExplorerIndexer.Schema
import ExplorerIndexer.Writer
import ExplorerIndexer.Queries
import ExplorerIndexer.Migrate
import ExplorerIndexer.WriterRuns
import ExplorerIndexer.TypeCounts
import ExplorerIndexer.Reference
import ExplorerIndexer.IndexLoop
import ExplorerIndexer.Snapshot
import ExplorerIndexer.NodeReads
import ExplorerIndexer.NodePermits
import ExplorerIndexer.GasSplit
import ExplorerIndexer.Status
import ExplorerIndexer.Exex
import ExplorerIndexer.Delivery
import ExplorerIndexer.Progress
import ExplorerIndexer.Health
import ExplorerIndexer.Convergence
import ExplorerIndexer.Hydration
import ExplorerIndexer.TxType
import ExplorerIndexer.Api
import ExplorerIndexer.Answers
import ExplorerIndexer.TypeFilter
import ExplorerIndexer.TransferFeeds
import ExplorerIndexer.DescPages
import ExplorerIndexer.ConsensusBatches
import ExplorerIndexer.ConsensusRanges
import ExplorerIndexer.ConsensusHeaders
import ExplorerIndexer.TokenCache
import ExplorerIndexer.OneState
import ExplorerIndexer.TokenRows
import ExplorerIndexer.TxDetail
import ExplorerIndexer.Amounts
import ExplorerIndexer.AbiReturn
import ExplorerIndexer.ReadPool
import ExplorerIndexer.Leaders
import ExplorerIndexer.StatsCache
import ExplorerIndexer.Epochs
import ExplorerIndexer.EpochRanges
import ExplorerIndexer.ConsensusOutputs
import ExplorerIndexer.ClosesEpoch
import ExplorerIndexer.TokenInfo
import ExplorerIndexer.Blocks
import ExplorerIndexer.Walks
import ExplorerIndexer.Addresses
import ExplorerIndexer.Committees
import ExplorerIndexer.TxLinks
import ExplorerIndexer.Replicas
import ExplorerIndexer.Transfers
import ExplorerIndexer.ConsensusBlocks
import ExplorerIndexer.Serving
