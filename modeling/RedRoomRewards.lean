import RedRoomRewards.Process.Machine
import RedRoomRewards.Store.Collection
import RedRoomRewards.Service.Types
import RedRoomRewards.Service.Mongo
import RedRoomRewards.Service.Ledger
import RedRoomRewards.Service.Wallet
import RedRoomRewards.Service.AdminOps
import RedRoomRewards.Service.Auth
import RedRoomRewards.Service.Calls
import RedRoomRewards.Service.Doubles
import RedRoomRewards.Protocol.Track
import RedRoomRewards.Protocol.Follows
import RedRoomRewards.Protocol.Escrow
import RedRoomRewards.Protocol.Points
import RedRoomRewards.Protocol.System
import RedRoomRewards.Process.Execution
import RedRoomRewards.Protocol.Accounts
import RedRoomRewards.Guarantees.BalanceLaw
import RedRoomRewards.Protocol.Items
import RedRoomRewards.Protocol.Stages
import RedRoomRewards.Guarantees.Conservation
import RedRoomRewards.Protocol.Ownership
import RedRoomRewards.Protocol.Secrecy
import RedRoomRewards.Guarantees.LifeCycle
import RedRoomRewards.Guarantees.SingleCharge
import RedRoomRewards.Guarantees.NoDoubleSpend
import RedRoomRewards.Guarantees.EscrowBacking
import RedRoomRewards.Guarantees.OncePerKey
import RedRoomRewards.Protocol.Entries
import RedRoomRewards.Guarantees.LedgerChain
import RedRoomRewards.Alone.Commands
import RedRoomRewards.Guarantees.Authorization
import RedRoomRewards.Guarantees.Retry
import RedRoomRewards.Alone.Snapshot
import RedRoomRewards.Guarantees.SnapshotAgrees
import RedRoomRewards.Alone.Entries
import RedRoomRewards.Alone.Escrow
import RedRoomRewards.Guarantees.EscrowProjection
import RedRoomRewards.Service.WalletController
import RedRoomRewards.Guarantees.ApiBalance
import RedRoomRewards.Guarantees.Resubmission
import RedRoomRewards.Guarantees.ExactlyOnce
import RedRoomRewards.Guarantees.LedgerDebits
import RedRoomRewards.Ingest.Queue
import RedRoomRewards.Ingest.Replay
import RedRoomRewards.Ingest.System
import RedRoomRewards.Ingest.Protocol
import RedRoomRewards.Ingest.Effects
import RedRoomRewards.Ingest.Events
import RedRoomRewards.Guarantees.HandlersExclusive
import RedRoomRewards.Guarantees.NothingLost
import RedRoomRewards.Ingest.Batches
import RedRoomRewards.Guarantees.SuccessOnce
import RedRoomRewards.Guarantees.NoStuckEvent
import RedRoomRewards.Guarantees.BoundedAttempts
import RedRoomRewards.Ingestion.Controller
import RedRoomRewards.Ingestion.Handover
import RedRoomRewards.Process.View
import RedRoomRewards.Guarantees.OneEventPerKey
import RedRoomRewards.Guarantees.TruthfulDuplicate
import RedRoomRewards.Guarantees.Reconciliation
import RedRoomRewards.Events.Bus
import RedRoomRewards.Guarantees.Deduplication
import RedRoomRewards.Alone.Events
import RedRoomRewards.Guarantees.EventsDispatched
import RedRoomRewards.Events.BalanceCache
import RedRoomRewards.Guarantees.CacheCoherence
import RedRoomRewards.Guarantees.RecordScopes
import RedRoomRewards.Guarantees.QueueAuthorizations
import RedRoomRewards.Guarantees.BoundedRetry
import RedRoomRewards.Alone.Bookings
import RedRoomRewards.Guarantees.WalletWithLedger
import RedRoomRewards.Guarantees.ExactSplit
import RedRoomRewards.Guarantees.ExpiredCredits
import RedRoomRewards.Guarantees.ExpiryWarnings
import RedRoomRewards.Guarantees.BalanceCorrection
import RedRoomRewards.Service.Configs
import RedRoomRewards.Guarantees.ActiveConfig
import RedRoomRewards.Protocol.Holds
import RedRoomRewards.Guarantees.ContendedHold
import RedRoomRewards.Guarantees.ExpiresOnce
import RedRoomRewards.Protocol.Closings
import RedRoomRewards.Guarantees.UndoneClosing
import RedRoomRewards.Service.BurnCatalog
import RedRoomRewards.Guarantees.CatalogBurn
import RedRoomRewards.Guarantees.PointInTime
import RedRoomRewards.Guarantees.WindowedReport
import RedRoomRewards.Process.Paging
import RedRoomRewards.Service.LedgerController
import RedRoomRewards.Guarantees.Pagination
import RedRoomRewards.Guarantees.NoPii
import RedRoomRewards.Ingest.Replaying
import RedRoomRewards.Guarantees.ReplayScope
import RedRoomRewards.Guarantees.BackoffHonoured
import RedRoomRewards.Guarantees.OnePollLoop
import RedRoomRewards.Service.Reservations
import RedRoomRewards.Guarantees.ClaimThenStore
import RedRoomRewards.Guarantees.ClosedOnce
import RedRoomRewards.Guarantees.ClosingParen
import RedRoomRewards.Text.Brackets
import RedRoomRewards.Ci.TenantScope
import RedRoomRewards.Guarantees.BoundedCache
import RedRoomRewards.Events.Publishing
import RedRoomRewards.Guarantees.PriorityOrder
import RedRoomRewards.Guarantees.PublishAccounting
import RedRoomRewards.Guarantees.BatchAccounting
import RedRoomRewards.Service.Dates
import RedRoomRewards.Guarantees.DerivedKeys
import RedRoomRewards.Text.CodePoints
import RedRoomRewards.Text.Reading
import RedRoomRewards.Text.Json
import RedRoomRewards.Text.JsonKeys
import RedRoomRewards.Service.ResultHash
import RedRoomRewards.Guarantees.CanonicalHash
import RedRoomRewards.Guarantees.WebhookDelivery
import RedRoomRewards.Process.Potential
import RedRoomRewards.Protocol.Readings
import RedRoomRewards.Guarantees.LockFreedom
import RedRoomRewards.Guarantees.QueueDrained
import RedRoomRewards.Process.Linearization
import RedRoomRewards.Guarantees.Linearizability
import RedRoomRewards.Service.ZkOracle
import RedRoomRewards.Guarantees.RangeProofs
import RedRoomRewards.Service.Membership
import RedRoomRewards.Guarantees.ScopeFindings
import RedRoomRewards.Guarantees.ScopeBaseline
import RedRoomRewards.Protocol.Credits
import RedRoomRewards.Guarantees.UploadAccounting
import RedRoomRewards.Guarantees.Signups
import RedRoomRewards.Ingestion.Receipts
import RedRoomRewards.Guarantees.EventReceipts
import RedRoomRewards.Process.Lockstep
import RedRoomRewards.Guarantees.PayloadSecrecy
import RedRoomRewards.Arithmetic.Double
import RedRoomRewards.Alone.Rounding
