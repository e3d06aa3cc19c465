import AndroidKernel.Lib.Runs
import AndroidKernel.Lib.Chain
import AndroidKernel.Lib.Ledger
import AndroidKernel.Lib.SpinLock
import AndroidKernel.Lib.Int32
import AndroidKernel.Lib.Sections
import AndroidKernel.Lib.Outcome
import AndroidKernel.Lib.Words
import AndroidKernel.Lib.LockCode
import AndroidKernel.Lib.Leader
import AndroidKernel.Lib.Dyadic
import AndroidKernel.Lib.Flow
import AndroidKernel.Lib.Arrears
import AndroidKernel.Lib.RoseWalk
import AndroidKernel.Sync.Queue
import AndroidKernel.Sync.Semaphore
import AndroidKernel.Sync.System
import AndroidKernel.Sync.Conservation
import AndroidKernel.Sync.Alternative
import AndroidKernel.Sync.Simulation
import AndroidKernel.Sync.Waiters
import AndroidKernel.Sync.Destroy
import AndroidKernel.Sync.Returns
import AndroidKernel.Sync.QueueRuns
import AndroidKernel.Sthread.Model
import AndroidKernel.Sthread.Steps
import AndroidKernel.Sthread.Threads
import AndroidKernel.Sthread.Requests
import AndroidKernel.Sthread.Places
import AndroidKernel.Sthread.Wakeup
import AndroidKernel.Sthread.Lifecycle
import AndroidKernel.Sthread.LifeSteps
import AndroidKernel.Sthread.Hands
import AndroidKernel.Sthread.TaskHands
import AndroidKernel.Sthread.ManagerHands
import AndroidKernel.Sthread.Dealloc
import AndroidKernel.Sthread.ThreadList
import AndroidKernel.Sthread.ListShape
import AndroidKernel.Sthread.Locks
import AndroidKernel.Sthread.SelfLookup
import AndroidKernel.Sthread.Shutdown
import AndroidKernel.Sthread.Creation
import AndroidKernel.Sthread.DoCreate
import AndroidKernel.Sthread.CreatePhases
import AndroidKernel.Sthread.Failures
import AndroidKernel.Netlock.Model
import AndroidKernel.Netlock.Steps
import AndroidKernel.Netlock.Holders
import AndroidKernel.Netlock.Exclusion
import AndroidKernel.Netlock.Waiting
import AndroidKernel.Netlock.Spinlock
import AndroidKernel.Netlock.Faults
import AndroidKernel.Netlock.Refusal
import AndroidKernel.Fail.Inject
import AndroidKernel.Fail.Countdown
import AndroidKernel.Fail.Tasks
import AndroidKernel.Fail.Entry
import AndroidKernel.Sched.Runqueue
import AndroidKernel.Sched.WorkConservation
import AndroidKernel.Sched.Classes
import AndroidKernel.Sched.Hooks
import AndroidKernel.Sched.OwnTasks
import AndroidKernel.Sched.Requeue
import AndroidKernel.Sched.Queued
import AndroidKernel.Sched.Orderly
import AndroidKernel.Sched.Entering
import AndroidKernel.Sched.Counting
import AndroidKernel.Sched.Priorities
import AndroidKernel.Sched.FairPick
import AndroidKernel.Sched.FairPicks
import AndroidKernel.Sched.FastPath
import AndroidKernel.Sched.Completion
import AndroidKernel.Sched.CompletionRuns
import AndroidKernel.Sched.Bandwidth
import AndroidKernel.Sched.BandwidthAccount
import AndroidKernel.Sched.Throttled
import AndroidKernel.Sched.Periods
import AndroidKernel.Sched.Groups
import AndroidKernel.Sched.Schedulable
import AndroidKernel.Mlimit.Zones
import AndroidKernel.Mlimit.OomSections
import AndroidKernel.Mlimit.Users
import AndroidKernel.Mlimit.Refs
import AndroidKernel.Mlimit.RefSteps
import AndroidKernel.Mlimit.Hashed
import AndroidKernel.Mlimit.Counted
import AndroidKernel.Mlimit.RefCounts
import AndroidKernel.Mlimit.Balance
import AndroidKernel.Mlimit.Persistence
import AndroidKernel.Mlimit.Tasks
import AndroidKernel.Mlimit.Oom
import AndroidKernel.Mlimit.Limit
import AndroidKernel.Mlimit.Unpatched
import AndroidKernel.Mlimit.Selection
import AndroidKernel.Mlimit.Frame
import AndroidKernel.Mlimit.Effect
import AndroidKernel.Mlimit.Charge
import AndroidKernel.Mlimit.Debit
import AndroidKernel.Mlimit.Enforce
import AndroidKernel.Mlimit.Agree
import AndroidKernel.Mlimit.Twin
import AndroidKernel.Mlimit.Independence
import AndroidKernel.Mlimit.Arithmetic
import AndroidKernel.Mlimit.Badness
import AndroidKernel.Mlimit.Largest
import AndroidKernel.Mlimit.NullPointers
import AndroidKernel.Mlimit.SlowPath
import AndroidKernel.Mlimit.Flags
import AndroidKernel.Pages.Zone
import AndroidKernel.Pages.Tidy
import AndroidKernel.Pages.Merge
import AndroidKernel.Pages.Freed
import AndroidKernel.Pages.Rmqueue
import AndroidKernel.Pages.Watermark
import AndroidKernel.Pages.Split
import AndroidKernel.Pages.Taken
import AndroidKernel.Pages.Regrouped
import AndroidKernel.Pages.Answers
import AndroidKernel.Pages.Pcp
import AndroidKernel.Pages.Local
import AndroidKernel.Pages.Drain
import AndroidKernel.Pages.Buffered
import AndroidKernel.Pages.Released
import AndroidKernel.Pages.System
import AndroidKernel.Pages.Held
import AndroidKernel.Pages.Calls
import AndroidKernel.Pages.Boot
import AndroidKernel.Pages.Counts
import AndroidKernel.Pages.Available
import AndroidKernel.Pages.Lookup
import AndroidKernel.Pages.MoveFreepages
import AndroidKernel.Pages.Isolation
import AndroidKernel.Pages.Exact
import AndroidKernel.Pages.Usemap
