import SplitSdk.AllocationLimit
import SplitSdk.OrchestratorTotals
import SplitSdk.SimulationSandbox
import SplitSdk.MerkleSoundness
import SplitSdk.JsonRoundTrip
import SplitSdk.TextEncoding
import SplitSdk.OrderedMap
import SplitSdk.KeyEnvelope
import SplitSdk.KeyStoreCalls
import SplitSdk.KeyConsistency
import SplitSdk.RotationOutcome
import SplitSdk.KeyBinding
import SplitSdk.WebhookReplay
import SplitSdk.WebhookVerification
import SplitSdk.NonceUniqueness
import SplitSdk.NonceReplay
import SplitSdk.ApprovalSession
import SplitSdk.CrossChainSettlement
import SplitSdk.EscrowVaultManager
import SplitSdk.SubscriptionManager
import SplitSdk.StreamDeduplicator
import SplitSdk.OptimisticRollback
import SplitSdk.CacheInvalidation
import SplitSdk.TxQueue
import SplitSdk.PersistentTxQueue
import SplitSdk.OfflineSync
import SplitSdk.EarlyPayment
import SplitSdk.PaymentOnce
import SplitSdk.BatchOutcome
import SplitSdk.ChunkIdempotence
import SplitSdk.SequenceCache
import SplitSdk.ChannelExclusivity
import SplitSdk.ChannelWaiters
import SplitSdk.ReceiptChain
import SplitSdk.AuditBinding
import SplitSdk.TenantAudit
import SplitSdk.ConstantProduct
import SplitSdk.PoolShares
import SplitSdk.SplitRounding
import SplitSdk.PreviewTotals
import SplitSdk.VersionNumbering
import SplitSdk.RollbackSafety
import SplitSdk.GroupedFold
import SplitSdk.BatchPaymentOptimizer
import SplitSdk.ValueShapes
import SplitSdk.InvoiceMerge
import SplitSdk.EventScan
import SplitSdk.InvoiceSubscription
import SplitSdk.CallbackFailures
import SplitSdk.EventIdentity
import SplitSdk.WithdrawalApproval
import SplitSdk.AccessControl
import SplitSdk.EnterpriseAuth
import SplitSdk.CsrfTokenManager
import SplitSdk.TokenLifetimes
import SplitSdk.MultiSigCoordinator
import SplitSdk.SigningOrders
import SplitSdk.ApprovalWorkflow
import SplitSdk.ApprovalVerdicts
import SplitSdk.ResilienceBreaker
import SplitSdk.BreakerRecovery
import SplitSdk.ResilientRpc
import SplitSdk.FailFast
import SplitSdk.TokenBucket
import SplitSdk.RateLimiting
import SplitSdk.RateBounds
import SplitSdk.CheckNeutrality
import SplitSdk.Replacements
import SplitSdk.RunLengths
import SplitSdk.CacheCompressor
import SplitSdk.MultiTenantClient
import SplitSdk.ForwardingRules
import SplitSdk.PositionalNumerals
import SplitSdk.ContentIdentifiers
import SplitSdk.CidVerification
import SplitSdk.SharedObjects
import SplitSdk.SplitRollbackCoordinator
import SplitSdk.RollbackRecords
import SplitSdk.BinaryHeaps
import SplitSdk.PriorityScheduling
import SplitSdk.StableSorting
import SplitSdk.OperationDraining
import SplitSdk.RequestConcurrency
import SplitSdk.BatchedDelivery
import SplitSdk.ThrottledGrants
import SplitSdk.PoolAccounting
import SplitSdk.BreadthFirst
import SplitSdk.PathCache
import SplitSdk.InvoiceQuery
import SplitSdk.Pagination
import SplitSdk.BucketIndexes
import SplitSdk.InvoiceFilter
import SplitSdk.DaoGovernance
import SplitSdk.GovernanceSafety
import SplitSdk.ConcurrencyLimiter
import SplitSdk.InvoiceBatch
import SplitSdk.BatchTasks
import SplitSdk.BatchReport
import SplitSdk.HorizonPagination
import SplitSdk.RetryEngine
import SplitSdk.RetryCircuit
import SplitSdk.PaymentFingerprint
import SplitSdk.PaymentAggregation
import SplitSdk.PaymentTotals
import SplitSdk.HorizonStream
import SplitSdk.StreamResumption
import SplitSdk.ReconnectBudget
import SplitSdk.AmountParsing
import SplitSdk.AmountRoundTrip
import SplitSdk.SplitRatio
import SplitSdk.RoundingBounds
import SplitSdk.PaymentSplitCalculator
import SplitSdk.AmmRouting
import SplitSdk.InvoiceBroadcaster
import SplitSdk.BroadcastSubscribers
import SplitSdk.WalletSessionManager
import SplitSdk.Staking
import SplitSdk.StakingRewards
import SplitSdk.TaggedJson
import SplitSdk.PaymentEncryptor
import SplitSdk.InvoiceStream
import SplitSdk.PollingLoops
import SplitSdk.OfferTracker
import SplitSdk.ContractEventSubscriber
import SplitSdk.LosslessPages
import SplitSdk.DiffCompleteness
import SplitSdk.RetryAfter
import SplitSdk.CacheRecency
import SplitSdk.CidLayout
import SplitSdk.DependencyGraph
import SplitSdk.AmountValidator
import SplitSdk.RpcLoadBalancer
import SplitSdk.EventChecksum
import SplitSdk.QrEcc
import SplitSdk.FeeTrend
import SplitSdk.TabSync
import SplitSdk.PrerequisiteChain
import SplitSdk.LiquidityPools
import SplitSdk.WaterfallRouter
import SplitSdk.Reconciliation
import SplitSdk.PaymentSettlement
import SplitSdk.PaymentMemos
import SplitSdk.StatusPolling
import SplitSdk.ContractRetries
import SplitSdk.SequencedLedger
import SplitSdk.TransactionSubmission
import SplitSdk.BusinessCountdown
