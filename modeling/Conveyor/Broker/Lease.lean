import Conveyor.Broker.Store
import Conveyor.Lib.SortFunc

/-!
# Leasing tasks and settling leases

A lease makes the chosen rows active under the caller's lease id. Every later operation on one of
them is scoped by that id: it succeeds only while the row is still active under it.
-/

namespace Conveyor

open Lib

namespace TaskRow

/-- The row of a task that was just leased. -/
def leased (row : TaskRow) (now : Time) (ttl : Duration) (leaseID : String) : TaskRow :=
  { row with
    state := .active
    leaseID := leaseID
    leaseExpiresAt := now + ttl
    startedAt := now
    progress := 0
    progressMessage := "" }

/-- The row after its lease was extended. -/
def extended (row : TaskRow) (now : Time) (ttl : Duration) : TaskRow :=
  { row with leaseExpiresAt := now + ttl }

/-- The row after a progress report; the percent is clamped. -/
def progressed (row : TaskRow) (percent : UInt32) (message : String) : TaskRow :=
  { row with
    progress := if percent > maxProgressPercent then maxProgressPercent else percent
    progressMessage := message }

/-- The row of a completed task. -/
def acked (row : TaskRow) (now : Time) : TaskRow :=
  { row with state := .completed, completedAt := now, leaseID := "" }

/-- The row after a failed attempt; the retry counter wraps at 32 bits. -/
def failed (row : TaskRow) (errMsg : String) (processAt : Time) : TaskRow :=
  { row with
    state := .retry
    retried := row.retried + 1
    lastError := errMsg
    processAt := processAt
    leaseID := "" }

/-- The row after a release without a retry penalty. -/
def released (row : TaskRow) (now : Time) : TaskRow :=
  { row with state := .pending, processAt := now, leaseID := "" }

/-- The row of a dead-lettered task. -/
def archivedWith (row : TaskRow) (errMsg : String) (now : Time) : TaskRow :=
  { row with state := .archived, lastError := errMsg, completedAt := now, leaseID := "" }

end TaskRow

/-- One item of a batched acknowledgement. -/
structure AckItem where
  taskID : String
  leaseID : String
  deriving DecidableEq

/-- The three-way comparison of two values of a linear order. -/
def compareBy {A : Type} [LT A] [DecidableRel (fun x y : A => x < y)] [DecidableEq A] (x y : A) : Int :=
  if x = y then 0 else if x < y then -1 else 1

/-- Dispatch order: priority descending by 32-bit subtraction, then due time, then id. -/
def compareDue (a other : TaskRow) : Int :=
  if a.priority ≠ other.priority then (other.priority - a.priority).toInt
  else if a.processAt ≠ other.processAt then compareBy a.processAt other.processAt
  else compareBy a.envelope.id other.envelope.id

/-- Group order: commit time, then id. -/
def compareMembers (a other : TaskRow) : Int :=
  if a.enqueuedAt ≠ other.enqueuedAt then compareBy a.enqueuedAt other.enqueuedAt
  else compareBy a.envelope.id other.envelope.id

namespace Broker

/-- The stored rows a loop visits that pass a test, each with its id. -/
def rowsWhere (b : Broker) (order : MapOrder String) (test : TaskRow → Bool) : List (String × TaskRow) :=
  (order.visit b.tasks).filterMap fun id =>
    match b.tasks.lookup id with
    | some row => if test row then some (id, row) else none
    | none => none

/-- Make the chosen rows active under a lease, one after the other. -/
def claim (b : Broker) (now : Time) (ttl : Duration) (leaseID : String) (chosen : List (String × TaskRow)) : Broker :=
  chosen.foldl (fun b entry => b.transition entry.1 entry.2 (entry.2.leased now ttl leaseID) now) b

/-- Select rows by a test, sort them, keep at most `limit` and lease them. -/
def claimSorted (b : Broker) (now : Time) (order : MapOrder String) (test : TaskRow → Bool)
    (cmp : TaskRow → TaskRow → Int) (limit : Int) (ttl : Duration) (leaseID : String) : Broker × List TaskEnvelope :=
  if limit ≤ 0 then (b, [])
  else
    let sorted := sortFunc (fun x y : String × TaskRow => cmp x.2 y.2) (b.rowsWhere order test)
    let chosen := sorted.take limit.toNat
    (b.claim now ttl leaseID chosen, chosen.map fun entry => overlay (entry.2.leased now ttl leaseID))

/-- Whether `Lease` may claim the row. -/
def leasable (queue : String) (now : Time) (row : TaskRow) : Bool :=
  row.envelope.queue == queue && dispatchable row.state && decide (row.processAt ≤ now) &&
    !expired row now

/-- Whether `LeaseGroup` may claim the row. -/
def groupLeasable (queue group : String) (row : TaskRow) : Bool :=
  row.state == .aggregating && row.envelope.queue == queue && row.group == group

/-- Claim up to `limit` due tasks of a queue. -/
def lease (b : Broker) (now : Time) (order : MapOrder String) (queue : String) (limit : Int)
    (ttl : Duration) (leaseID : String) : Broker × List TaskEnvelope :=
  b.claimSorted now order (leasable queue now) compareDue limit ttl leaseID

/-- Claim a group's aggregating members as one batch. -/
def leaseGroup (b : Broker) (now : Time) (order : MapOrder String) (queue group : String)
    (limit : Int) (ttl : Duration) (leaseID : String) : Broker × List TaskEnvelope :=
  b.claimSorted now order (groupLeasable queue group) compareMembers limit ttl leaseID

/-- Update the row of a task that is active under the given lease. An update that keeps the state
delivers no event. -/
def settle (b : Broker) (now : Time) (taskID leaseID : String) (update : TaskRow → TaskRow) :
    Except BrokerError Broker :=
  match b.activeRow taskID leaseID with
  | .error e => .error e
  | .ok row => .ok (b.transition taskID row (update row) now)

/-- Push the lease expiry forward. -/
def extendLease (b : Broker) (now : Time) (taskID leaseID : String) (ttl : Duration) : Except BrokerError Broker :=
  b.settle now taskID leaseID fun row => row.extended now ttl

/-- Record a running task's latest progress. -/
def setProgress (b : Broker) (now : Time) (taskID leaseID : String) (percent : UInt32)
    (message : String) : Except BrokerError Broker :=
  b.settle now taskID leaseID fun row => row.progressed percent message

/-- Complete an active task. -/
def ack (b : Broker) (now : Time) (taskID leaseID : String) : Except BrokerError Broker :=
  b.settle now taskID leaseID fun row => row.acked now

/-- Complete many active tasks, leaving out those not active under their lease. -/
def ackBatch (b : Broker) (now : Time) : List AckItem → Broker × List String
  | [] => (b, [])
  | item :: rest =>
    match b.ack now item.taskID item.leaseID with
    | .error _ => ackBatch b now rest
    | .ok b' =>
      let (b'', acked) := ackBatch b' now rest
      (b'', item.taskID :: acked)

/-- Record a failed attempt and schedule the retry. -/
def fail (b : Broker) (now : Time) (taskID leaseID errMsg : String) (processAt : Time) : Except BrokerError Broker :=
  b.settle now taskID leaseID fun row => row.failed errMsg processAt

/-- Return an active task to pending without a retry penalty. -/
def release (b : Broker) (now : Time) (taskID leaseID : String) : Except BrokerError Broker :=
  b.settle now taskID leaseID fun row => row.released now

/-- Dead-letter a task, lease-scoped when a lease id is given. -/
def archive (b : Broker) (now : Time) (taskID leaseID errMsg : String) : Except BrokerError Broker :=
  if leaseID ≠ "" then b.settle now taskID leaseID fun row => row.archivedWith errMsg now
  else
    match b.tasks.lookup taskID with
    | none => .error .taskNotFound
    | some row =>
      if row.state = .completed then .error .invalidState
      else .ok (b.transition taskID row (row.archivedWith errMsg now) now)

end Broker

end Conveyor
