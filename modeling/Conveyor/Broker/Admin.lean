import Conveyor.Broker.Store

/-!
# Admin operations on stored tasks

Each names one task, checks the state it is in, and moves or removes its row without a lease.
-/

namespace Conveyor

open Lib

namespace TaskRow

/-- The row of a task canceled before it ran. -/
def canceled (row : TaskRow) (now : Time) : TaskRow :=
  { row with state := .canceled, completedAt := now }

/-- The row of a task made due immediately. -/
def ranNow (row : TaskRow) (now : Time) : TaskRow :=
  { row with state := .pending, processAt := now, completedAt := 0 }

/-- The row of a task with a new due time. -/
def rescheduled (row : TaskRow) (processAt now : Time) : TaskRow :=
  { row with processAt := processAt, state := if processAt > now then .scheduled else .pending }

/-- The row of a waiting task dead-lettered by an admin; the last error is kept. -/
def deadLettered (row : TaskRow) (now : Time) : TaskRow :=
  { row with state := .archived, completedAt := now }

end TaskRow

/-- The states an admin may cancel. -/
def cancelable : TaskState → Bool
  | .scheduled | .pending | .retry | .aggregating | .blocked => true
  | _ => false

/-- The states an admin may make due immediately. -/
def runnable : TaskState → Bool
  | .scheduled | .pending | .retry | .archived => true
  | _ => false

/-- The states an admin may reschedule. -/
def reschedulable : TaskState → Bool
  | .scheduled | .pending | .retry => true
  | _ => false

/-- The states an admin may dead-letter. -/
def deadLetterable : TaskState → Bool
  | .scheduled | .pending | .retry | .blocked => true
  | _ => false

namespace Broker

/-- Move the named task if its state allows it. A move that keeps the state delivers no event. -/
def moveTask (b : Broker) (now : Time) (id : String) (allowed : TaskState → Bool)
    (update : TaskRow → TaskRow) : Except BrokerError Broker :=
  match b.tasks.lookup id with
  | none => .error .taskNotFound
  | some row =>
    if allowed row.state then .ok (b.transition id row (update row) now)
    else .error .invalidState

/-- Cancel a task that is not running. -/
def cancelTask (b : Broker) (now : Time) (id : String) : Except BrokerError Broker :=
  b.moveTask now id cancelable (TaskRow.canceled · now)

/-- Remove a task that is not active and that no incomplete task waits on. -/
def deleteTask (b : Broker) (id : String) : Except BrokerError Broker :=
  match b.tasks.lookup id with
  | none => .error .taskNotFound
  | some row =>
    if b.hasWaitingDependents id then .error .taskHasDependents
    else if row.state = .active then .error .invalidState
    else
      let unlinked := b.removeDependents row.deps.keys id
      .ok { unlinked with tasks := unlinked.tasks.erase id }

/-- Make a task due immediately. -/
def runTaskNow (b : Broker) (now : Time) (id : String) : Except BrokerError Broker :=
  b.moveTask now id runnable (TaskRow.ranNow · now)

/-- Move a waiting task's due time. -/
def rescheduleTask (b : Broker) (now : Time) (id : String) (processAt : Time) : Except BrokerError Broker :=
  b.moveTask now id reschedulable (TaskRow.rescheduled · processAt now)

/-- Dead-letter a waiting task. -/
def archiveTask (b : Broker) (now : Time) (id : String) : Except BrokerError Broker :=
  b.moveTask now id deadLetterable (TaskRow.deadLettered · now)

/-- Persist a queue's pause flag. -/
def setQueuePaused (b : Broker) (queue : String) (paused : Bool) : Broker :=
  { b with pausedQueues := b.pausedQueues.insert queue paused }

/-- Persist a queue's per-key concurrency limit. -/
def setQueueConcurrencyLimit (b : Broker) (queue : String) (maxActive : Int) : Broker :=
  { b with concurrencyLimits := b.concurrencyLimits.insert queue maxActive }

/-- Remove a queue's per-key concurrency limit. -/
def deleteQueueConcurrencyLimit (b : Broker) (queue : String) : Broker :=
  { b with concurrencyLimits := b.concurrencyLimits.erase queue }

end Broker

end Conveyor
