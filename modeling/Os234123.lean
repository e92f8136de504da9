import Os234123.Lib.Run
import Os234123.Lib.Buckets
import Os234123.Lib.Rotation
import Os234123.Lib.Allot
import Os234123.Lib.Progress
import Os234123.Lib.Counts
import Os234123.Sched.Basic
import Os234123.Sched.Queue
import Os234123.Sched.Operations
import Os234123.Sched.Fork
import Os234123.Sched.Machine
import Os234123.Sched.Invariant
import Os234123.Sched.Tick
import Os234123.Sched.Quiet
import Os234123.Sched.Preserve
import Os234123.Sched.Choice
import Os234123.Sched.Birth
import Os234123.Sched.Step
import Os234123.Sched.Boot
import Os234123.Sched.Wellformed
import Os234123.Sched.ForkRace
import Os234123.Sched.Slices
import Os234123.Sched.Classes
import Os234123.Sched.Requests
import Os234123.Sched.Records
import Os234123.Sched.Priorities
import Os234123.Sched.Guards
import Os234123.Sched.Preempt
import Os234123.Sched.Places
import Os234123.Sched.ForkQueues
import Os234123.Sched.Overdue
import Os234123.Sched.Lowering
import Os234123.Sched.Repay
import Os234123.Sched.Lineage
import Os234123.Sched.Renice
import Os234123.Sched.Promotion
import Os234123.Sched.Frames
import Os234123.Sched.Yields
import Os234123.Sched.Durable
import Os234123.Sched.SleepAvg
import Os234123.Sched.Patience
import Os234123.Sched.Starvation
import Os234123.Sched.States
import Os234123.Sched.WaitQueue
import Os234123.Sched.Completion
import Os234123.Sched.SleepOn
import Os234123.Sched.Vfork
import Os234123.Sched.RoundRobin
import Os234123.Sched.Reports
import Os234123.Sched.Sleepers
import Os234123.Lib.Linked
import Os234123.Lib.Ascent
import Os234123.Family.Basic
import Os234123.Family.Process
import Os234123.Family.Wait
import Os234123.Family.Machine
import Os234123.Family.Forest
import Os234123.Family.Wellformed
import Os234123.Family.Steps
import Os234123.Family.Calls
import Os234123.Family.Effects
import Os234123.Family.Ancestors
import Os234123.Family.Reaping
import Os234123.Family.Donors
import Os234123.Family.Busy
import Os234123.Family.Listing
import Os234123.Family.Attach
import Os234123.Family.Pids
import Os234123.Family.Jobs
import Os234123.Family.Threads
import Os234123.Family.Waiting
import Os234123.Family.Orphans
