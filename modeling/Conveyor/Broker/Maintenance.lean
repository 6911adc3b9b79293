import Conveyor.Broker.Store

/-!
# Periodic maintenance

The sweeps the reaper runs: reclaiming lapsed leases, promoting due scheduled tasks, dead-lettering
expired ones, and purging terminal rows whose retention has passed.
-/

namespace Conveyor

open Lib

namespace TaskRow

/-- The row whose lapsed lease was reclaimed: archived once its retries are spent. -/
def reaped (row : TaskRow) (now : Time) : TaskRow :=
  if row.retried ≥ row.maxRetry then
    { row with
      leaseID := "", lastError := leaseExpiredMessage, state := .archived, completedAt := now }
  else
    { row with
      leaseID := "", lastError := leaseExpiredMessage, state := .retry,
      retried := row.retried + 1, processAt := now }

/-- The row of a scheduled task that became due. -/
def due (row : TaskRow) : TaskRow := { row with state := .pending }

/-- The row of a task that expired before it was dispatched. -/
def expiredOut (row : TaskRow) (now : Time) : TaskRow :=
  { row with
    state := .archived, lastError := taskExpiredMessage, completedAt := now, leaseID := "" }

/-- The row without its uniqueness claim. -/
def unclaimed (row : TaskRow) : TaskRow := { row with uniqueKey := "" }

end TaskRow

/-- Whether the lease of an active row has lapsed. -/
def reapable (now : Time) (row : TaskRow) : Bool :=
  row.state == .active && decide (row.leaseExpiresAt ≤ now)

/-- Whether a scheduled row is due. -/
def promotable (now : Time) (row : TaskRow) : Bool :=
  row.state == .scheduled && decide (row.processAt ≤ now)

/-- Whether a row still waits past its expiry. -/
def archivable (now : Time) (row : TaskRow) : Bool :=
  (dispatchable row.state || row.state == .scheduled || row.state == .blocked) && expired row now

/-- Whether a row's uniqueness claim has lapsed. -/
def claimLapsed (now : Time) (row : TaskRow) : Bool :=
  row.uniqueKey != "" && !isZero row.uniqueExpiresAt && decide (row.uniqueExpiresAt ≤ now)

/-- Whether a terminal row's retention has passed: its own for a completed row, the server-wide one
for an archived or canceled row, where zero keeps it forever. -/
def purgeable (row : TaskRow) (now : Time) (archiveRetention : Duration) : Bool :=
  match row.state with
  | .completed => decide (row.completedAt + row.retention ≤ now)
  | .archived | .canceled =>
    decide (archiveRetention > 0) && decide (row.completedAt + archiveRetention ≤ now)
  | _ => false

namespace Broker

/-- Visit rows in the given order and move the eligible ones until the budget is spent. The moved
rows are returned as they are after the move. -/
def sweep (now : Time) (eligible : TaskRow → Bool) (update : TaskRow → TaskRow) :
    List String → Nat → Broker → Broker × List TaskRow
  | [], _, b => (b, [])
  | _ :: _, 0, b => (b, [])
  | id :: rest, left + 1, b =>
    match b.tasks.lookup id with
    | none => sweep now eligible update rest (left + 1) b
    | some row =>
      if eligible row then
        let (b', moved) := sweep now eligible update rest left (b.transition id row (update row) now)
        (b', update row :: moved)
      else sweep now eligible update rest (left + 1) b

/-- A sweep over all rows with a limit, where a limit below one does nothing. -/
def sweepTasks (b : Broker) (now : Time) (tasks : MapOrder String) (eligible : TaskRow → Bool)
    (update : TaskRow → TaskRow) (limit : Int) : Broker × List TaskRow :=
  if limit ≤ 0 then (b, []) else sweep now eligible update (tasks.visit b.tasks) limit.toNat b

/-- The distinct queues of the given rows. -/
def queuesOf (queues : MapOrder String) (rows : List TaskRow) : List String :=
  queues.visit (rows.foldl (fun (set : GoSet String) row => set.insert row.envelope.queue ()) ∅)

/-- Reclaim lapsed leases, and return the queues of the tasks put back to retry. -/
def reapExpiredLeases (b : Broker) (now : Time) (tasks queues : MapOrder String) (limit : Int) : Broker × List String :=
  let (b', moved) := b.sweepTasks now tasks (reapable now) (TaskRow.reaped · now) limit
  (b', queuesOf queues (moved.filter fun row => row.state == .retry))

/-- Move due scheduled tasks to pending, and return their queues. -/
def promoteScheduled (b : Broker) (now : Time) (tasks queues : MapOrder String) (limit : Int) : Broker × List String :=
  let (b', moved) := b.sweepTasks now tasks (promotable now) TaskRow.due limit
  (b', queuesOf queues moved)

/-- Dead-letter still-waiting tasks past their expiry, and count them. -/
def archiveExpired (b : Broker) (now : Time) (tasks : MapOrder String) (limit : Int) : Broker × Nat :=
  let (b', moved) := b.sweepTasks now tasks (archivable now) (TaskRow.expiredOut · now) limit
  (b', moved.length)

/-- Clear the waiting records on one dependency whose waiter is gone or no longer incomplete. -/
def dropStaleWaiters (b : Broker) (dependencyID : String) : List String → Broker
  | [] => b
  | dependentID :: rest =>
    match b.tasks.lookup dependentID with
    | some dependent =>
      if incomplete dependent.state then dropStaleWaiters b dependencyID rest
      else dropStaleWaiters (b.removeDependent dependencyID dependentID) dependencyID rest
    | none => dropStaleWaiters (b.removeDependent dependencyID dependentID) dependencyID rest

/-- Clear every waiting record whose waiter is gone or no longer incomplete. -/
def dropTerminalDependentEdges (b : Broker) : Broker :=
  b.dependents.keys.foldl
    (fun b dependencyID => b.dropStaleWaiters dependencyID (b.waiters dependencyID).keys) b

/-- Visit rows in the given order: drop a lapsed claim, then remove the row if nothing waits on it
and its retention has passed. Completed rows and the others have a budget each. -/
def purge (now : Time) (archiveRetention : Duration) (limit : Nat) :
    List String → Nat → Nat → Broker → Broker × Nat
  | [], completed, archived, b => (b, completed + archived)
  | id :: rest, completed, archived, b =>
    match b.tasks.lookup id with
    | none => purge now archiveRetention limit rest completed archived b
    | some stored =>
      let row := if claimLapsed now stored then stored.unclaimed else stored
      let b := if claimLapsed now stored then b.setRow id stored.unclaimed else b
      let removed := { b with tasks := b.tasks.erase id }
      if b.hasDependents id || !purgeable row now archiveRetention then
        purge now archiveRetention limit rest completed archived b
      else if row.state = .completed then
        if completed = limit then purge now archiveRetention limit rest completed archived b
        else purge now archiveRetention limit rest (completed + 1) archived removed
      else if archived = limit then purge now archiveRetention limit rest completed archived b
      else purge now archiveRetention limit rest completed (archived + 1) removed

/-- Remove retention-expired terminal rows, stale waiting records and lapsed claims. -/
def purgeTerminal (b : Broker) (now : Time) (tasks : MapOrder String) (archiveRetention : Duration)
    (limit : Int) : Broker × Nat :=
  if limit ≤ 0 then (b, 0)
  else
    let b := b.dropTerminalDependentEdges
    purge now archiveRetention limit.toNat (tasks.visit b.tasks) 0 0 b

end Broker

end Conveyor
