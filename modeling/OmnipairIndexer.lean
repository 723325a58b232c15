import OmnipairIndexer.Library.Transition
import OmnipairIndexer.Library.Fallible
import OmnipairIndexer.Library.Codec
import OmnipairIndexer.Library.Table
import OmnipairIndexer.Library.LastWrite
import OmnipairIndexer.Library.Binary64
import OmnipairIndexer.Core.Pipeline
import OmnipairIndexer.Indexer.Processors
import OmnipairIndexer.Indexer.Provenance
import OmnipairIndexer.Indexer.Effects
import OmnipairIndexer.Indexer.Transactions
import OmnipairIndexer.Indexer.EventTables
import OmnipairIndexer.Indexer.FailedWrites
import OmnipairIndexer.Indexer.LatestPosition
import OmnipairIndexer.Indexer.Replay
import OmnipairIndexer.Datasource.HeliusWebsocket
import OmnipairIndexer.Datasource.NeverDeaf
import OmnipairIndexer.Grpc.DbListener
import OmnipairIndexer.Grpc.HeldSwaps
import OmnipairIndexer.Database.SwapTable
import OmnipairIndexer.Scripts.Prices
import OmnipairIndexer.Scripts.BackfillVolume
import OmnipairIndexer.Scripts.VolumeEnricher
import OmnipairIndexer.Stream.System
import OmnipairIndexer.Stream.Evidence
import OmnipairIndexer.Stream.Knowledge
import OmnipairIndexer.Stream.OwnVolume
import OmnipairIndexer.Stream.ExactlyOnce
import OmnipairIndexer.Stream.Recovery
import OmnipairIndexer.Indexer.Lossless
import OmnipairIndexer.Indexer.TwoTables
import OmnipairIndexer.Indexer.DaemonLoop
import OmnipairIndexer.Datasource.StartBlock
import OmnipairIndexer.Stream.Hold
import OmnipairIndexer.Api.Pagination
import OmnipairIndexer.Api.Cache
import OmnipairIndexer.Api.EmaCalculator
import OmnipairIndexer.Scripts.FillEmaPrices
import OmnipairIndexer.Api.PoolInfo
import OmnipairIndexer.Api.PairSimulation
import OmnipairIndexer.Api.InFlight
import OmnipairIndexer.Grpc.Dedup
import OmnipairIndexer.Api.Expiry
import OmnipairIndexer.Api.EmaMonotone
import OmnipairIndexer.Datasource.SignatureLoop
import OmnipairIndexer.Indexer.SwapFees
import OmnipairIndexer.Core.ExecutionOrder
import OmnipairIndexer.Indexer.Offers
import OmnipairIndexer.Library.Batches
import OmnipairIndexer.Scripts.Visits
import OmnipairIndexer.Library.RoundTrip
import OmnipairIndexer.Decoder.Encoding
import OmnipairIndexer.Decoder.Accounts
import OmnipairIndexer.Grpc.SwapStreamServer
import OmnipairIndexer.Datasource.CrawlerTasks
import OmnipairIndexer.Datasource.Crawled
import OmnipairIndexer.Core.Schema
import OmnipairIndexer.Core.TransactionPipe
import OmnipairIndexer.Core.Dispatch
import OmnipairIndexer.Indexer.Written
import OmnipairIndexer.Api.PoolDirectory
import OmnipairIndexer.Api.SwapTotals
import OmnipairIndexer.Api.Staleness
import OmnipairIndexer.Datasource.Forwarding
import OmnipairIndexer.Datasource.Reconnects
import OmnipairIndexer.Indexer.Reported
import OmnipairIndexer.Core.AbsolutePath
import OmnipairIndexer.Indexer.CrawledRows
import OmnipairIndexer.Indexer.TwoSources
import OmnipairIndexer.Core.RawBuilder
import OmnipairIndexer.Stream.FromChain
import OmnipairIndexer.Api.EmaDoubles
