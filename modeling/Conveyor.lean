import Conveyor.Broker.Batch
import Conveyor.Broker.Events
import Conveyor.Broker.Expiry
import Conveyor.Broker.Gating
import Conveyor.Broker.LateDependent
import Conveyor.Broker.LeaseOrder
import Conveyor.Broker.Removal
import Conveyor.Broker.Stamps
import Conveyor.Postgres.Deadlock
import Conveyor.Postgres.FanIn
import Conveyor.Postgres.Fixpoint
import Conveyor.Postgres.LostWakeup
import Conveyor.Encrypted.DropIn
import Conveyor.Webhook.Guard
import Conveyor.Webhook.Service
import Conveyor.Actors.Backoff
import Conveyor.Actors.BatchTypes
import Conveyor.Actors.CreditBound
import Conveyor.Actors.CreditReturn
import Conveyor.Actors.GroupSweeper
import Conveyor.Actors.GroupTurns
import Conveyor.Actors.LeaseCycle
import Conveyor.Actors.Pause
import Conveyor.Actors.Scheduler
import Conveyor.Actors.Semaphore
import Conveyor.Actors.SlotRelease
import Conveyor.Actors.Stop
import Conveyor.Actors.Waker
import Conveyor.Api.BatchActions
