import Wall.Types
import Wall.Lib.FirstMatch
import Wall.Lib.LongestPrefix
import Wall.Lib.Machine
import Wall.OrderBook
import Wall.BookInvariant
import Wall.BookRuns
import Wall.MatchingEngine
import Wall.Executions
import Wall.Synced
import Wall.EngineInvariant
import Wall.EngineRuns
import Wall.Finality
import Wall.Uncrossed
import Wall.Conservation
import Wall.Portfolio
import Wall.PortfolioAccounts
import Wall.LiveExecutionTracker
import Wall.Reconciliation
import Wall.TerminalOrders
import Wall.Convergence
import Wall.Redelivery
import Wall.KafkaTransactionConsumer
import Wall.TransactionIngestor
import Wall.Lib.Cursor
import Wall.Lib.Pieces
import Wall.TransactionPublisher
import Wall.FlatJson
import Wall.JsonLines
import Wall.ExchangeMarketDataAdapter
import Wall.NumericFields
import Wall.ForgedRecords
import Wall.MarketFields
import Wall.IngestionRuns
import Wall.StoppedRuns
import Wall.SimulationRuntime
import Wall.RecoveryService
import Wall.RecoveredCheckpoints
import Wall.IngestionRecovery
import Wall.FailedCalls
import Wall.Lib.FileStore
import Wall.ReplayService
import Wall.Replay
import Wall.TradingCore
import Wall.CoreRuns
import Wall.RuntimeFrames
import Wall.MarketView
import Wall.ReplayedSessions
import Wall.SampleStrategies
import Wall.ReplayClock
import Wall.RecordFiles
import Wall.FileRepositories
import Wall.OrderIntents
import Wall.RepositoryMirror
import Wall.RuntimePositions
import Wall.Restarts
import Wall.OrderIds
import Wall.Lib.DistinctLog
import Wall.Lib.Rounding
import Wall.Lib.Numeral
import Wall.NumberFormats
import Wall.KafkaTransactionProducer
import Wall.Lib.CString
import Wall.LibpqSession
import Wall.StoredFills
import Wall.RestoredPriority
import Wall.StaleEvents
import Wall.PersistedPortfolio
import Wall.RestoredMarks
import Wall.PriceTime
import Wall.ArrivalList
import Wall.TransactionRepositories
import Wall.ExplicitCheckpoints
import Wall.KafkaResume
import Wall.FillAudit
import Wall.DeliveryCosts
import Wall.GreedyMatching
import Wall.MarketLevels
import Wall.MarketUpdates
import Wall.ExecutedNotional
import Wall.Lib.Interleaving
import Wall.Lib.TimedLog
import Wall.MarketHistory
import Wall.InstrumentOrder
import Wall.EntryPrices
import Wall.FinalReports
import Wall.RestartedTracker
import Wall.SubmitReports
import Wall.CancelUpdates
import Wall.PriceProtection
import Wall.RestoreTwice
import Wall.InstrumentIsolation
import Wall.StrategyIsolation
import Wall.DerivedCheckpoints
import Wall.EngineController
import Wall.ControllerRuns
import Wall.SimulatedExecutionEngine
import Wall.SimulatedRuns
import Wall.ConfigLoader
import Wall.PartialFills
import Wall.StateFiles
import Wall.DamagedFiles
import Wall.TornWrites
import Wall.Metrics
import Wall.RuntimeMetrics
import Wall.BacktestRunner
import Wall.HealthStatus
import Wall.ApplicationSession
import Wall.StrategyRequests
import Wall.Lib.SqlTable
import Wall.LibpqRepositories
import Wall.Lib.PartitionedLog
import Wall.PublisherApplication
import Wall.ConfigFiles
import Wall.Lib.Projection
import Wall.ExchangeRouter
import Wall.MockLiveAdapter
import Wall.ContinuedPortfolio
import Wall.ApplicationRuns
import Wall.MockEventSources
import Wall.Lib.RedisServer
import Wall.RedisCache
import Wall.LiveMarketDataFeed
import Wall.FeedHealthTracker
import Wall.AdmittedOrders
import Wall.StrategyControls
import Wall.RoundedEngine
import Wall.RoundedFills
import Wall.RoundedRecords
import Wall.RoundedCalls
import Wall.RoundedFinality
import Wall.RoundedRuntime
import Wall.RoundedCore
import Wall.RoundedExposure
import Wall.RoundedLimit
import Wall.RoundedLoops
import Wall.Lib.Scale
import Wall.RoundingRoom
