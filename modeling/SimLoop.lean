import SimLoop.Foundation.Dict
import SimLoop.Foundation.Machine
import SimLoop.Foundation.Random
import SimLoop.Foundation.Journal
import SimLoop.Foundation.Precedence
import SimLoop.Foundation.RoundRobin
import SimLoop.Foundation.Agreement
import SimLoop.Foundation.Pairing
import SimLoop.Foundation.Rankings
import SimLoop.Foundation.Fields
import SimLoop.Loop.Trace
import SimLoop.Disk.SimDisk
import SimLoop.Disk.Coherence
import SimLoop.Disk.Storage
import SimLoop.Disk.CrashConsistency
import SimLoop.Disk.PlainMapping
import SimLoop.Disk.Flush
import SimLoop.Foundation.Probing
import SimLoop.Explore.Divergence
import SimLoop.Explore.Frontier
import SimLoop.Explore.Search
import SimLoop.Explore.Shelter
import SimLoop.Explore.Explore
import SimLoop.Policy.Scheduling
import SimLoop.Policy.Pct
import SimLoop.Policy.PctSchedule
import SimLoop.Policy.PctProgram
import SimLoop.Policy.PctBound
import SimLoop.Policy.PctPriority
import SimLoop.Loop.State
import SimLoop.Loop.Operations
import SimLoop.Loop.Machine
import SimLoop.Loop.Agenda
import SimLoop.Loop.Conservation
import SimLoop.Loop.Deadlines
import SimLoop.Loop.Session
import SimLoop.Loop.Recasting
import SimLoop.Loop.SessionRuns
import SimLoop.Loop.Replay
import SimLoop.Loop.Skew
import SimLoop.Loop.Independence
import SimLoop.Loop.Reentrancy
import SimLoop.Loop.Drift
import SimLoop.Explore.PctSearch
import SimLoop.Loop.Discipline
import SimLoop.Loop.Verdict
import SimLoop.Shrink.Passes
import SimLoop.Shrink.Search
import SimLoop.Shrink.Reproduction
import SimLoop.Foundation.Roll
import SimLoop.Net.State
import SimLoop.Net.Ledger
import SimLoop.Net.Wire
import SimLoop.Net.Streams
import SimLoop.Net.Endpoints
import SimLoop.Net.Machine
import SimLoop.Net.FlowControl
import SimLoop.Net.Configuration
import SimLoop.Net.Resolution
import SimLoop.Net.Bookkeeping
import SimLoop.Net.Conservation
import SimLoop.Net.Tasks
import SimLoop.Net.Registry
import SimLoop.Net.Teardown
import SimLoop.Net.Addresses
import SimLoop.Net.Switchboard
import SimLoop.Net.Switching
import SimLoop.Net.Upgrade
import SimLoop.Net.Stack
import SimLoop.Net.Wiring
import SimLoop.Net.Wired
import SimLoop.Net.Names
import SimLoop.Net.Clients
import SimLoop.Net.Openings
import SimLoop.Net.Intake
import SimLoop.Net.Sequence
import SimLoop.Net.Delivery
import SimLoop.Net.Reliability
import SimLoop.Net.Completeness
import SimLoop.Timeline.Timeline
import SimLoop.Timeline.Drawing
import SimLoop.Timeline.Recorded
import SimLoop.Timeline.Sends
import SimLoop.Shrink.Labels
import SimLoop.Shrink.Granularity
import SimLoop.Shrink.Minimality
import SimLoop.Shrink.Ragged
import SimLoop.Shrink.Prefixes
