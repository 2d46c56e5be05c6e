import InterviewScheduler.Engine.Guarantees
import InterviewScheduler.Engine.Representation
import InterviewScheduler.Engine.ScoreRange
import InterviewScheduler.Engine.Tradeoffs
import InterviewScheduler.Calendar.ClientSpec
import InterviewScheduler.System.Orphans
import InterviewScheduler.System.Atomicity
import InterviewScheduler.System.Workload
import InterviewScheduler.System.Settled
import InterviewScheduler.System.Organiser
import InterviewScheduler.System.DeadEnds
import InterviewScheduler.System.Grants
import InterviewScheduler.Frontend.WallTime
import InterviewScheduler.Frontend.SessionSpec
import InterviewScheduler.Frontend.SingleFlight
import InterviewScheduler.Accounts.Rotation
import InterviewScheduler.Accounts.Archive
import InterviewScheduler.Accounts.Expiry
import InterviewScheduler.Accounts.Handouts
import InterviewScheduler.Engine.SetExact
import InterviewScheduler.Redis.Locks
import InterviewScheduler.Redis.RateBounds
import InterviewScheduler.System.Reminders
import InterviewScheduler.System.Snapshots
import InterviewScheduler.Interviews.Listing
import InterviewScheduler.Accounts.FirstWins
import InterviewScheduler.System.Editing
import InterviewScheduler.System.Failures
import InterviewScheduler.System.Authority
import InterviewScheduler.Accounts.Interleaved
import InterviewScheduler.System.AuditTrail
import InterviewScheduler.System.OnDemand
import InterviewScheduler.System.Attribution
