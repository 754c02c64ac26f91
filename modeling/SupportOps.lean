import SupportOps.Library.Runs
import SupportOps.Library.Tables
import SupportOps.Library.Sessions
import SupportOps.Library.Savepoints
import SupportOps.Library.Scripts
import SupportOps.Library.FixedWidth
import SupportOps.Library.Calendar
import SupportOps.Python.Models
import SupportOps.Python.Writes
import SupportOps.Python.Seed
import SupportOps.Python.Rules
import SupportOps.Python.Processor
import SupportOps.Python.Records
import SupportOps.Python.Actions
import SupportOps.Python.Jobs
import SupportOps.Python.Passes
import SupportOps.Python.Checks
import SupportOps.Python.CheckSessions
import SupportOps.Python.Ingestion
import SupportOps.Python.Idempotency
import SupportOps.Python.ConcurrentCooldown
import SupportOps.Library.Serial
import SupportOps.Library.Interrupts
import SupportOps.DotNet.TransactionalCooldown
import SupportOps.DotNet.ConcurrentBatches
import SupportOps.DotNet.Reset
import SupportOps.DotNet.AuditTrail
import SupportOps.DotNet.Interruption
import SupportOps.Python.Workers
import SupportOps.Python.Leases
import SupportOps.Python.Backlog
import SupportOps.Python.Cooldown
import SupportOps.Python.Sqlite
import SupportOps.Python.Accounting
import SupportOps.Python.References
import SupportOps.Python.LifeCycle
import SupportOps.Python.CheckTrail
import SupportOps.Python.Deadline
import SupportOps.Python.WorkerPass
import SupportOps.Python.WorkerDrain
import SupportOps.Python.BatchSessions
import SupportOps.Python.Resubmission
import SupportOps.Python.RuleOrder
import SupportOps.Python.ColumnLengths
import SupportOps.Python.FollowUps
import SupportOps.Library.Admission
import SupportOps.Python.Overshoot
import SupportOps.Python.Migrations
import SupportOps.Python.Contract
import SupportOps.Benchmark.Policy
import SupportOps.Python.Engine
import SupportOps.Benchmark.Workload
import SupportOps.DotNet.Engine
import SupportOps.DotNet.Drain
import SupportOps.DotNet.Outcomes
import SupportOps.DotNet.Timestamps
import SupportOps.Library.Sql
import SupportOps.DotNet.Rows
import SupportOps.Library.Wakeups
import SupportOps.DotNet.Worker
import SupportOps.DotNet.WorkerProgress
import SupportOps.Benchmark.CrossStack
import SupportOps.Python.BoundedWaiting
import SupportOps.Library.Rounds
import SupportOps.Benchmark.AnyOrder
import SupportOps.Benchmark.Reordered
import SupportOps.DotNet.LimitedDrain
import SupportOps.DotNet.RunOnce
import SupportOps.DotNet.Added
import SupportOps.Benchmark.HttpPosts
import SupportOps.Benchmark.HttpRun
import SupportOps.Benchmark.SyntheticBenchmark
import SupportOps.Python.ActionTrail
import SupportOps.Library.Json
import SupportOps.Benchmark.Fixture
