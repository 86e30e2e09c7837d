import Blackgeorge.Data.Dumps
import Blackgeorge.Data.Plain
import Blackgeorge.Data.RoundTrip
import Blackgeorge.Data.Scans
import Blackgeorge.Data.Documents
import Blackgeorge.Data.Search
import Blackgeorge.WorkerRunner.Extraction
import Blackgeorge.Data.Schemas
import Blackgeorge.Memory.Vector
import Blackgeorge.Memory.SQLite
import Blackgeorge.Memory.Chunks
import Blackgeorge.Relational.Dictionary
import Blackgeorge.Relational.Table
import Blackgeorge.Store.Runs
import Blackgeorge.Store.RunParity
import Blackgeorge.Store.Sessions
import Blackgeorge.Store.SessionParity
import Blackgeorge.WorkforceRun.Run
import Blackgeorge.WorkforceRun.Calls
import Blackgeorge.Session.Calls
import Blackgeorge.WorkforceRun.Outcome
import Blackgeorge.Coroutine.Solo
import Blackgeorge.Workflow.Approvals
import Blackgeorge.WorkforceRun.Identity
import Blackgeorge.WorkerRunner.Plans
import Blackgeorge.WorkforceRun.Legs
import Blackgeorge.WorkforceRun.Ledger
import Blackgeorge.WorkforceRun.Spending
import Blackgeorge.WorkforceRun.Relay
import Blackgeorge.WorkforceRun.Chains
import Blackgeorge.WorkforceRun.Allowlist
import Blackgeorge.WorkforceRun.Collaborations
import Blackgeorge.WorkerRunner.Reassembly
import Blackgeorge.Coroutine.Shares
import Blackgeorge.Workflow.Loops
import Blackgeorge.Workflow.Paths
import Blackgeorge.Workflow.Shapes
import Blackgeorge.Workflow.Recreation
import Blackgeorge.Workflow.Counters
import Blackgeorge.Workflow.Rounds
import Blackgeorge.Workflow.Renaming
import Blackgeorge.Workflow.Restored
import Blackgeorge.Coroutine.Lockstep
import Blackgeorge.WorkerRunner.Blind
import Blackgeorge.WorkerRunner.Waiting
import Blackgeorge.WorkerRunner.Resolution
import Blackgeorge.Desk.Overrides
import Blackgeorge.WorkerRunner.Compaction
import Blackgeorge.WorkerRunner.Boundary
import Blackgeorge.Collaboration.Channel
import Blackgeorge.Tools.Subworkers
import Blackgeorge.Tools.Execution
import Blackgeorge.Adapter.Structured
import Blackgeorge.Systems.Runs
import Blackgeorge.Adapter.StreamEvents
import Blackgeorge.WorkerRunner.Sightless
import Blackgeorge.WorkerRunner.Toolless
import Blackgeorge.WorkforceRun.Parallel
import Blackgeorge.WorkerRunner.Opening
import Blackgeorge.WorkerRunner.Roles
import Blackgeorge.Session.Whole
import Blackgeorge.Coroutine.Steps
import Blackgeorge.Session.Interleaved
import Blackgeorge.WorkforceRun.SideBySide
import Blackgeorge.WorkforceRun.Isolation
import Blackgeorge.Coroutine.Cells
import Blackgeorge.Coroutine.Calls
import Blackgeorge.Workflow.Pending
import Blackgeorge.Desk.Records
import Blackgeorge.Workflow.Filing
import Blackgeorge.Workflow.Effects
import Blackgeorge.Workflow.Whole
import Blackgeorge.Desk.Whole
import Blackgeorge.Desk.Sequences
import Blackgeorge.Desk.Stale
import Blackgeorge.Desk.Together
import Blackgeorge.Memory.Agreement
import Blackgeorge.Coroutine.Gates
import Blackgeorge.WorkerRunner.Budget
import Blackgeorge.Workflow.Budget
import Blackgeorge.WorkforceRun.Carried
import Blackgeorge.Workflow.Carried
import Blackgeorge.Workflow.Pauses
