import ExecutionEngine.Async.Prog
import ExecutionEngine.Async.Pool
import ExecutionEngine.Async.Rely
import ExecutionEngine.Async.Relational
import ExecutionEngine.Async.Attempts
import ExecutionEngine.Contracts.Decimal
import ExecutionEngine.Contracts.Enums
import ExecutionEngine.Contracts.Errors
import ExecutionEngine.Contracts.Text
import ExecutionEngine.Contracts.Orders
import ExecutionEngine.Contracts.Value
import ExecutionEngine.Db.Store
import ExecutionEngine.Db.Fills
import ExecutionEngine.Db.Alike
import ExecutionEngine.Db.Transactions
import ExecutionEngine.Adapters.Reconcile
import ExecutionEngine.Adapters.Liberator
import ExecutionEngine.Adapters.StreamingPro
import ExecutionEngine.Core.Effects
import ExecutionEngine.Adapters.AccountReads
import ExecutionEngine.Adapters.Accounts
import ExecutionEngine.Adapters.Envelopes
import ExecutionEngine.Adapters.Sim
import ExecutionEngine.Adapters.FillIds
import ExecutionEngine.Core.Gates
import ExecutionEngine.Adapters.Reconciler
import ExecutionEngine.Core.Router
import ExecutionEngine.Core.Steps
import ExecutionEngine.Core.Footprint
import ExecutionEngine.Core.Engine
import ExecutionEngine.Core.Placement
import ExecutionEngine.Core.Specs
import ExecutionEngine.Core.Amend
import ExecutionEngine.Core.Refusals
import ExecutionEngine.Core.Pass
import ExecutionEngine.Core.StatusFills
import ExecutionEngine.Core.Telescope
import ExecutionEngine.Core.Handles
import ExecutionEngine.Core.Matching
import ExecutionEngine.Core.LostAck
import ExecutionEngine.Core.Responses
import ExecutionEngine.Core.Overfill
import ExecutionEngine.Core.Cancels
import ExecutionEngine.Core.LateFills
import ExecutionEngine.Core.BurstGuard
import ExecutionEngine.Core.Isolation
import ExecutionEngine.Core.KillSwitch
import ExecutionEngine.Core.Acceptance
import ExecutionEngine.Core.Authority
import ExecutionEngine.Core.Resolution
import ExecutionEngine.Adapters.Twins
import ExecutionEngine.Adapters.Wire
import ExecutionEngine.Paging.Keyset
import ExecutionEngine.Encoding.Base64
import ExecutionEngine.Encoding.Isoformat
import ExecutionEngine.Api.History
import ExecutionEngine.Api.Node
import ExecutionEngine.Api.Verdicts
import ExecutionEngine.Api.Reconnect
import ExecutionEngine.Api.Access
import ExecutionEngine.Api.Audit
import ExecutionEngine.Feed.Ring
import ExecutionEngine.Events.Hub
import ExecutionEngine.Events.Stream
import ExecutionEngine.Events.Delivery
import ExecutionEngine.Events.Restarts
import ExecutionEngine.Events.Publication
import ExecutionEngine.Core.Plans
import ExecutionEngine.Core.Redelivery
import ExecutionEngine.Core.AmendInPlace
import ExecutionEngine.Core.AmendCaps
import ExecutionEngine.Core.MassCancel
import ExecutionEngine.Async.Total
import ExecutionEngine.Core.Recovery
import ExecutionEngine.Core.Fingerprint
import ExecutionEngine.Core.Windows
import ExecutionEngine.Adapters.RateLimit
import ExecutionEngine.Events.Accounting
import ExecutionEngine.Events.Attribution
import ExecutionEngine.Core.SimSettlement
import ExecutionEngine.Contracts.Numerals
import ExecutionEngine.Feed.BidOffer
import ExecutionEngine.Adapters.SimPricing
import ExecutionEngine.Adapters.ProRows
import ExecutionEngine.Adapters.OpenOrders
import ExecutionEngine.Containers.Odict
import ExecutionEngine.Containers.Trail
import ExecutionEngine.Encoding.JsonText
import ExecutionEngine.Encoding.JsonRoundTrip
import ExecutionEngine.Encoding.EventStream
import ExecutionEngine.Dated.Series
import ExecutionEngine.Reference.FeeSchedule
import ExecutionEngine.Containers.Lru
import ExecutionEngine.Containers.Mailbox
import ExecutionEngine.OrderBook.Service
import ExecutionEngine.OrderBook.Refcounts
import ExecutionEngine.OrderBook.Cache
import ExecutionEngine.OrderBook.Provider
import ExecutionEngine.OrderBook.Readers
import ExecutionEngine.OrderBook.Held
import ExecutionEngine.OrderBook.Runtime
import ExecutionEngine.OrderBook.Tracking
import ExecutionEngine.OrderBook.EngineIo
import ExecutionEngine.Containers.Lease
import ExecutionEngine.Async.Translate
import ExecutionEngine.Core.SingleFlight
import ExecutionEngine.Containers.Streak
import ExecutionEngine.Adapters.Session
import ExecutionEngine.Core.Heartbeat
