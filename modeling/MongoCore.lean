import MongoCore.Operations.PipelineRefs
import MongoCore.Operations.Substitution
import MongoCore.Data.Bson
import MongoCore.Data.Driver
import MongoCore.Operations.TransactionPipeline
import MongoCore.Library.Framing
import MongoCore.Library.TransitionSystem
import MongoCore.Operations.StepArguments
import MongoCore.Operations.ValidatedReferences
import MongoCore.Transport.Connection
import MongoCore.Transport.Segmentation
import MongoCore.Grpc.Transactions
import MongoCore.Grpc.TenantQuota
import MongoCore.Grpc.TransactionIsolation
import MongoCore.Grpc.PipelineDeadlock
import MongoCore.Ingestion.Dedup
import MongoCore.Ingestion.DedupAgreement
import MongoCore.Ingestion.Engine
import MongoCore.Library.KeyedStore
import MongoCore.Ingestion.Batching
import MongoCore.Clients.Pool
import MongoCore.Clients.OwnReply
import MongoCore.Data.BsonFormat
import MongoCore.Transport.Codec
import MongoCore.Transport.Journal
import MongoCore.Transport.Replies
import MongoCore.Transport.Batches
import MongoCore.Transport.Rejection
import MongoCore.Transport.RoundTrip
import MongoCore.Transport.Written
import MongoCore.Transport.Readable
import MongoCore.Transport.Dispatch
import MongoCore.Transport.DispatchOrder
import MongoCore.Transport.FrameLimit
import MongoCore.Transport.DeclaredLength
import MongoCore.Ingestion.Ledger
import MongoCore.Ingestion.SequentialAccounts
import MongoCore.Ingestion.ConcurrentWrites
import MongoCore.Ingestion.Accounting
import MongoCore.Compiled.Translator
import MongoCore.Compiled.QuerySafety
import MongoCore.Mcp.Safety
import MongoCore.Mcp.StdioLoop
import MongoCore.Mcp.SelfWait
import MongoCore.Mcp.JsonRpc
import MongoCore.Mcp.DatabaseTools
import MongoCore.Mcp.ReadOnly
import MongoCore.Mcp.NeverWrites
import MongoCore.Data.Stages
import MongoCore.Mcp.ResultBound
import MongoCore.Mcp.AskExecution
import MongoCore.Clients.Decoding
import MongoCore.Transport.Options
import MongoCore.Data.DriverCommand
import MongoCore.Transport.OptionUse
import MongoCore.Data.Collection
import MongoCore.Grpc.Crud
import MongoCore.Grpc.OptionEffects
import MongoCore.Data.Serde
import MongoCore.Operations.JsonDetour
import MongoCore.Grpc.TransactionSteps
import MongoCore.Operations.Attempts
import MongoCore.Operations.Rollback
import MongoCore.Operations.TransientErrors
import MongoCore.Grpc.OpenTransactions
import MongoCore.Ingestion.Cancellation
import MongoCore.Operations.InsertedIds
import MongoCore.Operations.TransactionOptions
import MongoCore.Library.Chunks
import MongoCore.Ingestion.Termination
import MongoCore.Ingestion.Checkpoint
import MongoCore.Ingestion.Resumption
import MongoCore.Clients.PythonValues
import MongoCore.Clients.TwoTransports
import MongoCore.Clients.Interchange
import MongoCore.Clients.SameOutcome
import MongoCore.Ingestion.Schema
import MongoCore.Ingestion.Writer
import MongoCore.Ingestion.SchemaAgreement
import MongoCore.Library.EntryMap
import MongoCore.Library.RecencyMap
import MongoCore.Library.Machines
import MongoCore.Compiled.MemoryCache
import MongoCore.Compiled.CacheHierarchy
import MongoCore.Compiled.CacheStatistics
import MongoCore.Compiled.CacheCoherence
import MongoCore.Compiled.Hasher
import MongoCore.Transport.BsonDocs
import MongoCore.Grpc.RateLimit
import MongoCore.Operations.StepLimits
import MongoCore.Transport.Shutdown
import MongoCore.Library.Results
import MongoCore.Compiled.TemplateReuse
import MongoCore.Compiled.TemplateMatches
import MongoCore.Compiled.TemplateSubstitution
import MongoCore.Mcp.Codegen
import MongoCore.Mcp.SessionScript
import MongoCore.Mcp.SessionNames
import MongoCore.Mcp.ClosedScripts
import MongoCore.Library.ByteText
import MongoCore.Ingestion.Transform
import MongoCore.Ingestion.FilterExpressions
import MongoCore.Library.Precedence
import MongoCore.Ingestion.ArithmeticExpressions
import MongoCore.Ingestion.TransformPanics
import MongoCore.Library.FlushBuffer
import MongoCore.Grpc.StreamBatches
import MongoCore.Grpc.InsertStreams
import MongoCore.Library.Tokens
import MongoCore.Operations.PathComposition
import MongoCore.Operations.ReferenceSyntax
import MongoCore.Search.Fallback
import MongoCore.Library.Ranking
import MongoCore.Analytics.Collector
import MongoCore.Analytics.Aggregator
import MongoCore.Tenant.Isolation
import MongoCore.Tenant.Accounting
import MongoCore.Ingestion.ConcurrentPartition
import MongoCore.Transport.BufferPool
import MongoCore.Mcp.CommentedOut
import MongoCore.Library.Escapes
import MongoCore.Library.BinaryRounding
import MongoCore.Data.JsonText
import MongoCore.Data.JsonLexing
import MongoCore.Data.JsonReading
import MongoCore.Mcp.EmbeddedLiterals
import MongoCore.Mcp.EmbeddedValues
import MongoCore.Library.Shapes
import MongoCore.Data.BsonTypes
import MongoCore.Analytics.Fingerprint
import MongoCore.Compiled.StatedQueries
import MongoCore.Mcp.EmbedAndStore
import MongoCore.Transport.Prefetch
import MongoCore.Library.Grouping
import MongoCore.Library.JoinedPaths
import MongoCore.Mcp.SchemaSampling
import MongoCore.Library.Markup
import MongoCore.Analytics.Dashboard
import MongoCore.Mcp.NestedPipelines
import MongoCore.Mcp.ModelMembers
import MongoCore.Search.BatchEmbedding
import MongoCore.Ingestion.TypeWidening
import MongoCore.Clients.RequestIds
import MongoCore.Ingestion.DirectoryWatch
import MongoCore.Compiled.OrderlyIntents
import MongoCore.Library.WriteThrough
import MongoCore.Ingestion.JobRecords
import MongoCore.Ingestion.DeadLetters
import MongoCore.Clients.Wired
import MongoCore.Clients.Service
import MongoCore.Library.Projection
import MongoCore.Tenant.Noninterference
import MongoCore.Clients.MethodRequests
import MongoCore.Clients.SharedDatabase
