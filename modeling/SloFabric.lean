import SloFabric.Library.KeyedTable
import SloFabric.Library.Codec
import SloFabric.Library.Binary64
import SloFabric.Library.Runs
import SloFabric.Library.Numbering
import SloFabric.Units
import SloFabric.Evaluate
import SloFabric.Persistence
import SloFabric.Restart
import SloFabric.Machine
import SloFabric.Decision
import SloFabric.EvidenceFence
import SloFabric.Lineage
import SloFabric.Revalidation
import SloFabric.Authority
import SloFabric.Staleness
import SloFabric.Records
import SloFabric.Reload
import SloFabric.Durable
import SloFabric.Identity
import SloFabric.Cooldown
import SloFabric.Receipts
import SloFabric.Completion
import SloFabric.Dispatch
import SloFabric.Binding
import SloFabric.WellFormed
import SloFabric.Ending
import SloFabric.Deduplication
import SloFabric.Provenance
import SloFabric.Interference
import SloFabric.UnitAgreement
import SloFabric.Rollover
import SloFabric.Generations
import SloFabric.Checksum
import SloFabric.Socket
import SloFabric.Enumerators
import SloFabric.Supersession
import SloFabric.Handover
import SloFabric.ActiveDefinition
import SloFabric.Minimum
import SloFabric.Recovery
import SloFabric.Counting
import SloFabric.Refusal
import SloFabric.SameStore
import SloFabric.CostSum
import SloFabric.Fencing
import SloFabric.Failover
import SloFabric.Hysteresis
import SloFabric.Idempotent
import SloFabric.Order
import SloFabric.Advisory
import SloFabric.Authorizable
import SloFabric.Percent
import SloFabric.ValidValues
import SloFabric.WeightedMean
import SloFabric.FutureDates
import SloFabric.SlidingWindow
import SloFabric.Batch
import SloFabric.Bounds
import SloFabric.Quantiles
import SloFabric.Looks
import SloFabric.Severity
import SloFabric.Failures
import SloFabric.Digest
import SloFabric.Overflow
import SloFabric.Checked
import SloFabric.Consumption
import SloFabric.Concurrency
import SloFabric.Messages
import SloFabric.Delivery
import SloFabric.Service
import SloFabric.Threads
import SloFabric.Workers
import SloFabric.Reports
import SloFabric.Archive
import SloFabric.Statuses
import SloFabric.Routing
import SloFabric.ClosedLoop
import SloFabric.Trend
import SloFabric.Influence
import SloFabric.Discipline
import SloFabric.Restarts
import SloFabric.Restoration
import SloFabric.Worse
import SloFabric.Exhaustion
import SloFabric.Arrivals
import SloFabric.Coherence
