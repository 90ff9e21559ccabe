import EcommerceIntegration.BulkLoad.Catalog
import EcommerceIntegration.BulkLoad.Cleanup
import EcommerceIntegration.BulkLoad.Dag
import EcommerceIntegration.BulkLoad.Generator
import EcommerceIntegration.BulkLoad.Plan
import EcommerceIntegration.BulkLoad.Reader
import EcommerceIntegration.BulkLoad.Staging
import EcommerceIntegration.BulkLoad.Validation
import EcommerceIntegration.Config
import EcommerceIntegration.Db.Correspondence
import EcommerceIntegration.Db.Database
import EcommerceIntegration.Db.Keys
import EcommerceIntegration.Db.Models
import EcommerceIntegration.Db.Repositories
import EcommerceIntegration.Db.Triggers
import EcommerceIntegration.Dispatch.Acknowledged
import EcommerceIntegration.Dispatch.Attempts
import EcommerceIntegration.Dispatch.Backend
import EcommerceIntegration.Dispatch.Board
import EcommerceIntegration.Dispatch.Classification
import EcommerceIntegration.Dispatch.Cycles
import EcommerceIntegration.Dispatch.Documents
import EcommerceIntegration.Dispatch.ErpClient
import EcommerceIntegration.Dispatch.ErpMock
import EcommerceIntegration.Dispatch.Finality
import EcommerceIntegration.Dispatch.Locks
import EcommerceIntegration.Dispatch.Outbox
import EcommerceIntegration.Dispatch.Pacing
import EcommerceIntegration.Dispatch.Pipeline
import EcommerceIntegration.Dispatch.Progress
import EcommerceIntegration.Dispatch.SingleOrder
import EcommerceIntegration.Dispatch.Worker
import EcommerceIntegration.Domain.Amounts
import EcommerceIntegration.Domain.Enums
import EcommerceIntegration.Domain.Events
import EcommerceIntegration.Domain.OrderPayload
import EcommerceIntegration.Ingest.AddressHistory
import EcommerceIntegration.Ingest.AddressInForce
import EcommerceIntegration.Ingest.AddressTimes
import EcommerceIntegration.Ingest.Alone
import EcommerceIntegration.Ingest.Barriers
import EcommerceIntegration.Ingest.Bystander
import EcommerceIntegration.Ingest.Capacity
import EcommerceIntegration.Ingest.ClientRuns
import EcommerceIntegration.Ingest.ConstraintBarrier
import EcommerceIntegration.Ingest.Convergence
import EcommerceIntegration.Ingest.Custody
import EcommerceIntegration.Ingest.Delivery
import EcommerceIntegration.Ingest.DeliveryLimit
import EcommerceIntegration.Ingest.ExactlyOnce
import EcommerceIntegration.Ingest.Executions
import EcommerceIntegration.Ingest.Handlers
import EcommerceIntegration.Ingest.Independence
import EcommerceIntegration.Ingest.Isolation
import EcommerceIntegration.Ingest.LastWriter
import EcommerceIntegration.Ingest.Lockstep
import EcommerceIntegration.Ingest.NoDeadlock
import EcommerceIntegration.Ingest.NoLoss
import EcommerceIntegration.Ingest.Notification
import EcommerceIntegration.Ingest.OrderEffects
import EcommerceIntegration.Ingest.OrderRuns
import EcommerceIntegration.Ingest.OrderStatus
import EcommerceIntegration.Ingest.Origins
import EcommerceIntegration.Ingest.OwnPayment
import EcommerceIntegration.Ingest.Ownership
import EcommerceIntegration.Ingest.Payload
import EcommerceIntegration.Ingest.PaymentRuns
import EcommerceIntegration.Ingest.Processor
import EcommerceIntegration.Ingest.RefusedFacts
import EcommerceIntegration.Ingest.Replay
import EcommerceIntegration.Ingest.Reservations
import EcommerceIntegration.Ingest.StoredTimes
import EcommerceIntegration.Ingest.System
import EcommerceIntegration.Ingest.Totals
import EcommerceIntegration.Ingest.Triggered
import EcommerceIntegration.Ingest.Worker
import EcommerceIntegration.Ingest.Writes
import EcommerceIntegration.Library.Attempts
import EcommerceIntegration.Library.Clock
import EcommerceIntegration.Library.Commits
import EcommerceIntegration.Library.ConsumerGroup
import EcommerceIntegration.Library.Contract
import EcommerceIntegration.Library.Coupling
import EcommerceIntegration.Library.Decimal
import EcommerceIntegration.Library.DecimalText
import EcommerceIntegration.Library.Evaluation
import EcommerceIntegration.Library.Execution
import EcommerceIntegration.Library.Guards
import EcommerceIntegration.Library.Leads
import EcommerceIntegration.Library.LockOrder
import EcommerceIntegration.Library.Locking
import EcommerceIntegration.Library.Outcomes
import EcommerceIntegration.Library.Program
import EcommerceIntegration.Library.Solo
import EcommerceIntegration.Library.Transaction
import EcommerceIntegration.Library.Transition
import EcommerceIntegration.Library.TwoPhase
import EcommerceIntegration.Library.Versions
import EcommerceIntegration.Library.Workflow
import EcommerceIntegration.Library.Woven
import EcommerceIntegration.Messaging.Streams
import EcommerceIntegration.Platform
import EcommerceIntegration.Webhook.Api
import EcommerceIntegration.Webhook.Backpressure
import EcommerceIntegration.Webhook.Buffer
import EcommerceIntegration.Webhook.Probes
import EcommerceIntegration.Webhook.Shutdown
