import Conveyor.Broker.Lease

/-!
# Reading the task log

The operations that look at the stored tasks and change nothing: one task, a page of tasks, and the counts per
queue and per group.
-/

namespace Conveyor

open Lib

/-- The page size of a query that names none. -/
def defaultListLimit : Int := 50

/-- The largest page size. -/
def maxListLimit : Int := 1000

/-- The page size a broker applies. -/
def effectiveListLimit (limit : Int) : Int :=
  if limit ≤ 0 then defaultListLimit else if limit > maxListLimit then maxListLimit else limit

/-- The filter of a task listing; a zero value filters nothing. -/
structure TaskQuery where
  queue : String := ""
  state : TaskState := .unspecified
  limit : Int := 0
  afterID : String := ""
  deriving DecidableEq

/-- Whether a row passes the filter. -/
def TaskQuery.matches (query : TaskQuery) (row : TaskRow) : Bool :=
  !(query.queue != "" && row.envelope.queue != query.queue) &&
    !(query.state != .unspecified && row.state != query.state) &&
    !(query.afterID != "" && decide (¬ row.envelope.id < query.afterID))

/-- One listed task. -/
structure TaskRecord where
  envelope : TaskEnvelope
  state : TaskState
  deriving DecidableEq

/-- One aggregating group. -/
structure GroupStat where
  queue : String
  group : String
  type : String
  count : Int
  oldest : Time
  newest : Time
  deriving DecidableEq

/-- The empty record a group starts with at its first visited member. -/
def GroupStat.start (row : TaskRow) : GroupStat :=
  { queue := row.envelope.queue, group := row.group, type := row.envelope.type, count := 0
    oldest := row.enqueuedAt, newest := row.enqueuedAt }

/-- Count one member. -/
def GroupStat.add (stat : GroupStat) (row : TaskRow) : GroupStat :=
  { stat with
    count := stat.count + 1
    oldest := if row.enqueuedAt < stat.oldest then row.enqueuedAt else stat.oldest
    newest := if row.enqueuedAt > stat.newest then row.enqueuedAt else stat.newest }

/-- The tasks of one queue by state. -/
structure QueueStat where
  queue : String
  paused : Bool
  scheduled : Int := 0
  pending : Int := 0
  active : Int := 0
  retry : Int := 0
  completed : Int := 0
  archived : Int := 0
  aggregating : Int := 0
  blocked : Int := 0
  deriving DecidableEq

/-- Count one task; canceled tasks are not counted. -/
def QueueStat.add (stat : QueueStat) : TaskState → QueueStat
  | .scheduled => { stat with scheduled := stat.scheduled + 1 }
  | .pending => { stat with pending := stat.pending + 1 }
  | .active => { stat with active := stat.active + 1 }
  | .retry => { stat with retry := stat.retry + 1 }
  | .completed => { stat with completed := stat.completed + 1 }
  | .archived => { stat with archived := stat.archived + 1 }
  | .aggregating => { stat with aggregating := stat.aggregating + 1 }
  | .blocked => { stat with blocked := stat.blocked + 1 }
  | .canceled | .unspecified => stat

namespace Broker

variable (b : Broker)

/-- One task and its state. -/
def getTask (id : String) : Except BrokerError (TaskEnvelope × TaskState) :=
  match b.tasks.lookup id with
  | none => .error .taskNotFound
  | some row => .ok (overlay row, row.state)

/-- A page of the tasks that match, by id descending. -/
def listTasks (order : MapOrder String) (query : TaskQuery) : List TaskRecord :=
  let matched := (GoMap.values order b.tasks).filter query.matches
  let sorted := sortFunc (fun a other => compareBy other.envelope.id a.envelope.id) matched
  (sorted.take (effectiveListLimit query.limit).toNat).map fun row => ⟨overlay row, row.state⟩

/-- Count one row into the record of its group. -/
def countGroup (stats : GoMap (String × String) GroupStat) (row : TaskRow) : GoMap (String × String) GroupStat :=
  if row.state ≠ .aggregating then stats
  else
    let key := (row.envelope.queue, row.group)
    stats.insert key (((stats.lookup key).getD (GroupStat.start row)).add row)

/-- The aggregating groups of all queues, by queue and group. -/
def groupStats (tasks : MapOrder String) (groups : MapOrder (String × String)) : List GroupStat :=
  let stats := (GoMap.values tasks b.tasks).foldl countGroup ∅
  sortFunc (fun a other => if a.queue ≠ other.queue then compareBy a.queue other.queue else compareBy a.group other.group)
    (GoMap.values groups stats)

/-- The number of due tasks per queue. -/
def pendingCount (now : Time) (order : MapOrder String) : GoMap String Int :=
  (GoMap.values order b.tasks).foldl (fun counts row =>
    if dispatchable row.state && decide (row.processAt ≤ now) then
      counts.insert row.envelope.queue ((counts.lookup row.envelope.queue).getD 0 + 1)
    else counts) ∅

/-- The record of a queue, created with its pause flag. -/
def queueStat (stats : GoMap String QueueStat) (queue : String) : QueueStat :=
  (stats.lookup queue).getD { queue := queue, paused := (b.pausedQueues.lookup queue).getD false }

/-- The tasks of every queue by state, by queue name. -/
def queueStats (paused tasks queues : MapOrder String) : List QueueStat :=
  let flagged := (paused.visit b.pausedQueues).foldl (fun stats queue => stats.insert queue (b.queueStat stats queue)) ∅
  let counted := (GoMap.values tasks b.tasks).foldl (fun stats row =>
    stats.insert row.envelope.queue ((b.queueStat stats row.envelope.queue).add row.state)) flagged
  sortFunc (fun a other => compareBy a.queue other.queue) (GoMap.values queues counted)

/-- A queue's pause flag. -/
def queuePaused (queue : String) : Bool := (b.pausedQueues.lookup queue).getD false

end Broker

end Conveyor
