import Unsend.Semaphore
import Unsend.Mutex
import Unsend.OnceCellRuns
import Unsend.ChannelStream
import Unsend.SchedulerOrder
import Unsend.EventCancel
import Unsend.EventCount
import Unsend.EventNotify
import Unsend.EventUnwind
import Unsend.RwLockGuards
import Unsend.BarrierCount
import Unsend.SchedulerEmpty
import Unsend.ReentryRuns
import Unsend.ExecutorDrained
import Unsend.SchedulerSleep
import Unsend.TaskRest
import Unsend.Program
import Unsend.Parts
import Unsend.BarrierPast
import Unsend.ProgramRest
import Unsend.Liveness
import Unsend.SchedulerRemote
import Unsend.Turnover
import Unsend.LockTurnover
import Unsend.Line
import Unsend.LockOrder
import Unsend.Costs
import Unsend.SchedulerWork
import Unsend.SchedulerDrain
