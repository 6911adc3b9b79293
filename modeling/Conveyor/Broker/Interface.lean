import Conveyor.Broker.Call
import Conveyor.Broker.Cron
import Conveyor.Broker.Reads
import Conveyor.Broker.Registry

/-!
# The whole broker interface in memory

The task log with its cron entries and settings, and every operation a caller may issue, those that only read
included.
-/

namespace Conveyor

open Lib

/-- The in-memory broker with everything it stores. -/
structure MemoryBroker where
  log : Broker := {}
  cronEntries : CronEntries := ∅
  rateLimits : GoMap String RateLimit := ∅
  /-- When each per-key concurrency limit of the log was written. -/
  limitsWrittenAt : GoMap String Time := ∅
  groupConfigs : GoMap (String × String) GroupConfig := ∅
  webhookWorkers : WebhookWorkers := ∅

/-- A per-queue per-key concurrency limit as it is read. -/
structure ConcurrencyLimit where
  queue : String
  maxActive : Int
  updatedAt : Time
  deriving DecidableEq

/-- The storage engine and its row counts. -/
structure BrokerInfo where
  driver : String
  metrics : List (String × String)
  deriving DecidableEq

/-- An operation with its arguments. `call` covers those that change tasks and queues and carry no result. -/
inductive Operation where
  | call (call : Call)
  | ack (taskID leaseID : String) (result : List UInt8)
  | ackBatch (items : List (AckItem × List UInt8))
  | getTask (id : String)
  | listTasks (query : TaskQuery)
  | groupStats
  | pendingCount
  | queueStats
  | queuePaused (queue : String)
  | setQueueRateLimit (queue : String) (ratePerSec : UInt64) (burst : Int)
  | deleteQueueRateLimit (queue : String)
  | queueRateLimit (queue : String)
  | queueRateLimits
  | queueConcurrencyLimit (queue : String)
  | queueConcurrencyLimits
  | setGroupConfig (queue group : String) (maxSize : Int) (maxDelay gracePeriod : Duration)
  | deleteGroupConfig (queue group : String)
  | groupConfigs
  | info
  | upsertCronEntry (entry : CronEntry)
  | listCronEntries
  | listDueCronEntries (now : Time)
  | setCronPaused (id : String) (paused : Bool)
  | updateCronNextRun (id : String) (expected next : Time)
  | deleteCronEntry (id : String)
  | upsertWebhookWorker (worker : WebhookWorker)
  | getWebhookWorker (name : String)
  | listWebhookWorkers
  | setWebhookWorkerPaused (name : String) (paused : Bool)
  | deleteWebhookWorker (name : String)
  | close

/-- What an operation returns. -/
inductive Returned where
  | reply (reply : Reply)
  | task (envelope : TaskEnvelope) (state : TaskState)
  | records (records : List TaskRecord)
  | groupStats (stats : List GroupStat)
  | counts (counts : GoMap String Int)
  | queueStats (stats : List QueueStat)
  | flag (value : Bool)
  | rateLimits (limits : List RateLimit)
  | concurrencyLimits (limits : List ConcurrencyLimit)
  | groupConfigs (configs : List GroupConfig)
  | info (info : BrokerInfo)
  | cronEntries (entries : List CronEntry)
  | webhookWorkers (workers : List WebhookWorker)
  deriving DecidableEq

/-- What an operation takes from its surroundings: the clock and the orders of its loops over maps. -/
structure Surroundings where
  now : Time
  order : Iteration := {}
  groups : MapOrder (String × String) := .listed

namespace MemoryBroker

variable (b : MemoryBroker)

/-- Carry out an operation of the task log. -/
def exec (env : Surroundings) (call : Call) : MemoryBroker × Returned :=
  let written := match call with
    | .setQueueConcurrencyLimit queue _ => b.limitsWrittenAt.insert queue env.now
    | .deleteQueueConcurrencyLimit queue => b.limitsWrittenAt.erase queue
    | _ => b.limitsWrittenAt
  let (log, reply) := b.log.exec ⟨env.now, call, env.order⟩
  ({ b with log := log, limitsWrittenAt := written }, .reply reply)

/-- One concurrency limit as it is read. -/
def concurrencyLimit (queue : String) : Option ConcurrencyLimit :=
  (b.log.concurrencyLimits.lookup queue).map fun maxActive =>
    ⟨queue, maxActive, (b.limitsWrittenAt.lookup queue).getD 0⟩

/-- The engine's name and row counts. -/
def engineInfo : BrokerInfo where
  driver := "memory"
  metrics :=
    [("tasks", toString b.log.tasks.keys.length), ("cron_entries", toString b.cronEntries.keys.length),
     ("paused_queues", toString b.log.pausedQueues.keys.length), ("rate_limits", toString b.rateLimits.keys.length),
     ("concurrency_limits", toString b.log.concurrencyLimits.keys.length)]

/-- Carry out one operation. -/
def perform (env : Surroundings) : Operation → MemoryBroker × Returned
  | .call call => b.exec env call
  -- a result is not retained, since nothing reads it
  | .ack taskID leaseID _ => b.exec env (.ack taskID leaseID)
  | .ackBatch items => b.exec env (.ackBatch (items.map Prod.fst))
  | .getTask id =>
    (b, match b.log.getTask id with
      | .error cause => .reply (.error cause)
      | .ok (envelope, state) => .task envelope state)
  | .listTasks query => (b, .records (b.log.listTasks env.order.tasks query))
  | .groupStats => (b, .groupStats (b.log.groupStats env.order.tasks env.groups))
  | .pendingCount => (b, .counts (b.log.pendingCount env.now env.order.tasks))
  | .queueStats => (b, .queueStats (b.log.queueStats env.order.finished env.order.tasks env.order.queues))
  | .queuePaused queue => (b, .flag (b.log.queuePaused queue))
  | .setQueueRateLimit queue ratePerSec burst =>
    ({ b with rateLimits := b.rateLimits.insert queue ⟨queue, ratePerSec, burst, env.now⟩ }, .reply .ok)
  | .deleteQueueRateLimit queue => ({ b with rateLimits := b.rateLimits.erase queue }, .reply .ok)
  | .queueRateLimit queue => (b, .rateLimits (b.rateLimits.lookup queue).toList)
  | .queueRateLimits =>
    (b, .rateLimits (sortFunc (fun a other => compareBy a.queue other.queue) (GoMap.values env.order.queues b.rateLimits)))
  | .queueConcurrencyLimit queue => (b, .concurrencyLimits (b.concurrencyLimit queue).toList)
  | .queueConcurrencyLimits =>
    (b, .concurrencyLimits (sortFunc (fun a other => compareBy a.queue other.queue)
      ((env.order.queues.visit b.log.concurrencyLimits).filterMap b.concurrencyLimit)))
  | .setGroupConfig queue group maxSize maxDelay gracePeriod =>
    ({ b with groupConfigs :=
        b.groupConfigs.insert (queue, group) ⟨queue, group, maxSize, maxDelay, gracePeriod, env.now⟩ }, .reply .ok)
  | .deleteGroupConfig queue group => ({ b with groupConfigs := b.groupConfigs.erase (queue, group) }, .reply .ok)
  | .groupConfigs =>
    (b, .groupConfigs (sortFunc (fun a other =>
      if compareBy a.queue other.queue ≠ 0 then compareBy a.queue other.queue else compareBy a.group other.group)
      (GoMap.values env.groups b.groupConfigs)))
  | .info => (b, .info b.engineInfo)
  | .upsertCronEntry entry => ({ b with cronEntries := b.cronEntries.upsertCronEntry entry }, .reply .ok)
  | .listCronEntries => (b, .cronEntries (b.cronEntries.listCronEntries env.order.tasks))
  | .listDueCronEntries now => (b, .cronEntries (b.cronEntries.listDueCronEntries env.order.tasks now))
  | .setCronPaused id paused =>
    match b.cronEntries.setCronPaused id paused with
    | .error cause => (b, .reply (.error cause))
    | .ok entries => ({ b with cronEntries := entries }, .reply .ok)
  | .updateCronNextRun id expected next =>
    ({ b with cronEntries := b.cronEntries.updateCronNextRun id expected next }, .reply .ok)
  | .deleteCronEntry id => ({ b with cronEntries := b.cronEntries.deleteCronEntry id }, .reply .ok)
  | .upsertWebhookWorker worker => ({ b with webhookWorkers := b.webhookWorkers.upsertWebhookWorker worker }, .reply .ok)
  | .getWebhookWorker name =>
    (b, match b.webhookWorkers.getWebhookWorker name with
      | .error cause => .reply (.error cause)
      | .ok worker => .webhookWorkers [worker])
  | .listWebhookWorkers => (b, .webhookWorkers (b.webhookWorkers.listWebhookWorkers env.order.queues))
  | .setWebhookWorkerPaused name paused =>
    match b.webhookWorkers.setWebhookWorkerPaused name paused with
    | .error cause => (b, .reply (.error cause))
    | .ok workers => ({ b with webhookWorkers := workers }, .reply .ok)
  | .deleteWebhookWorker name => ({ b with webhookWorkers := b.webhookWorkers.deleteWebhookWorker name }, .reply .ok)
  | .close => (b, .reply .ok)

end MemoryBroker

end Conveyor
