import Conveyor.Lib.GoMap
import Conveyor.Task

/-!
# The in-memory broker's store

Rows by task id, the reverse dependency index, the persisted queue settings, and the lifecycle
events delivered to a sink that was wired before the first operation. Every operation runs under
one mutex, so an operation is a function of the store, its arguments and its clock reading.
-/

namespace Conveyor

open Lib

/-- One stored task: the envelope as committed, and the execution fields overlaid on reads. -/
structure TaskRow where
  envelope : TaskEnvelope
  state : TaskState
  priority : Int32 := 0
  processAt : Time := 0
  expiresAt : Time := 0
  retried : Int32 := 0
  lastError : String := ""
  leaseID : String := ""
  leaseExpiresAt : Time := 0
  startedAt : Time := 0
  completedAt : Time := 0
  progress : UInt32 := 0
  progressMessage : String := ""
  retention : Duration := 0
  uniqueKey : String := ""
  uniqueExpiresAt : Time := 0
  maxRetry : Int32 := 0
  group : String := ""
  enqueuedAt : Time := 0
  deps : GoMap String DependencyFailurePolicy := ∅

/-- The in-memory broker. -/
structure Broker where
  tasks : GoMap String TaskRow := ∅
  dependents : GoMap String (GoSet String) := ∅
  pausedQueues : GoMap String Bool := ∅
  concurrencyLimits : GoMap String Int := ∅
  events : List TaskEvent := []

/-- The sentinel errors of the broker interface, and the one that names a batch member. -/
inductive BrokerError where
  | duplicateTask
  | taskNotFound
  | leaseLost
  | invalidState
  | groupedSchedule
  | taskHasDependents
  | batch (index : Nat) (taskID : String) (cause : BrokerError)
  deriving DecidableEq

/-- Recorded as the last error of a task whose expired lease the reaper reclaims. -/
def leaseExpiredMessage : String := "lease expired"

/-- Recorded as the last error of a task that expired before it was dispatched. -/
def taskExpiredMessage : String := "task expired before dispatch"

/-- Recorded as the last error of a task canceled because a dependency failed. -/
def cascadeCanceledMessage : String := "canceled by failed dependency"

/-- The upper bound of a reported progress percent. -/
def maxProgressPercent : UInt32 := 100

/-- Whether the row's pre-dispatch expiry has passed; a zero expiry never does. -/
def expired (row : TaskRow) (now : Time) : Bool :=
  !isZero row.expiresAt && decide (row.expiresAt ≤ now)

/-- The stored envelope with the execution fields stamped onto it. -/
def overlay (row : TaskRow) : TaskEnvelope :=
  { row.envelope with
    retried := row.retried
    lastError := row.lastError
    options := { row.envelope.options with processAt := some row.processAt }
    startedAt := if isZero row.startedAt then row.envelope.startedAt else some row.startedAt
    completedAt :=
      if isZero row.completedAt then row.envelope.completedAt else some row.completedAt
    progress := row.progress
    progressMessage := row.progressMessage }

namespace Broker

/-- The broker `New` returns. -/
def empty : Broker := {}

/-- Deliver the event of a transition, if it carries one. -/
def emit (b : Broker) (oldState newState : TaskState) (id : String) (row : TaskRow) (occurredAt : Time) : Broker :=
  match derive oldState newState id row.envelope.queue row.envelope.type row.lastError
      row.retried occurredAt with
  | some event => { b with events := b.events ++ [event] }
  | none => b

/-- Store a row under an id. -/
def setRow (b : Broker) (id : String) (row : TaskRow) : Broker :=
  { b with tasks := b.tasks.insert id row }

/-- Replace a row and deliver the event of its transition. -/
def transition (b : Broker) (id : String) (old new : TaskRow) (now : Time) : Broker :=
  (b.setRow id new).emit old.state new.state id new now

/-- The tasks recorded as waiting on a dependency. -/
def waiters (b : Broker) (dependencyID : String) : GoSet String :=
  (b.dependents.lookup dependencyID).getD ∅

/-- Record that one task waits on another. -/
def addDependent (b : Broker) (dependencyID dependentID : String) : Broker :=
  { b with
    dependents := b.dependents.insert dependencyID ((b.waiters dependencyID).insert dependentID ()) }

/-- Clear one waiting record, dropping the dependency's entry with its last waiter. -/
def removeDependent (b : Broker) (dependencyID dependentID : String) : Broker :=
  match b.dependents.lookup dependencyID with
  | none => b
  | some waiters =>
    let left := waiters.erase dependentID
    if left.keys = [] then { b with dependents := b.dependents.erase dependencyID }
    else { b with dependents := b.dependents.insert dependencyID left }

/-- Clear the waiting records of one task on each of the given dependencies. -/
def removeDependents (b : Broker) (dependencyIDs : List String) (dependentID : String) : Broker :=
  dependencyIDs.foldl (fun b dependencyID => b.removeDependent dependencyID dependentID) b

/-- The row of a task that is active under the given lease. -/
def activeRow (b : Broker) (taskID leaseID : String) : Except BrokerError TaskRow :=
  match b.tasks.lookup taskID with
  | none => .error .leaseLost
  | some row =>
    if row.state ≠ .active ∨ row.leaseID ≠ leaseID then .error .leaseLost else .ok row

/-- Whether any stored task is recorded as waiting on the given one. -/
def hasDependents (b : Broker) (taskID : String) : Bool := decide ((b.waiters taskID).keys ≠ [])

/-- Whether a waiting task that has not reached a terminal state is recorded for the given one. -/
def hasWaitingDependents (b : Broker) (taskID : String) : Bool :=
  (b.waiters taskID).keys.any fun dependentID =>
    match b.tasks.lookup dependentID with
    | some dependent => incomplete dependent.state
    | none => false

/-- A task is active under a lease. -/
def ActiveUnder (b : Broker) (taskID leaseID : String) : Prop :=
  ∃ row, b.tasks.lookup taskID = some row ∧ row.state = .active ∧ row.leaseID = leaseID

@[simp] theorem emit_tasks (b : Broker) (old new : TaskState) (id : String) (row : TaskRow)
    (now : Time) : (b.emit old new id row now).tasks = b.tasks := by
  unfold emit
  split <;> rfl

@[simp] theorem emit_dependents (b : Broker) (old new : TaskState) (id : String) (row : TaskRow)
    (now : Time) : (b.emit old new id row now).dependents = b.dependents := by
  unfold emit
  split <;> rfl

@[simp] theorem setRow_tasks (b : Broker) (id : String) (row : TaskRow) :
    (b.setRow id row).tasks = b.tasks.insert id row := rfl

@[simp] theorem setRow_dependents (b : Broker) (id : String) (row : TaskRow) :
    (b.setRow id row).dependents = b.dependents := rfl

@[simp] theorem transition_tasks (b : Broker) (id : String) (old new : TaskRow) (now : Time) :
    (b.transition id old new now).tasks = b.tasks.insert id new := by
  rw [transition, emit_tasks, setRow_tasks]

@[simp] theorem transition_dependents (b : Broker) (id : String) (old new : TaskRow)
    (now : Time) : (b.transition id old new now).dependents = b.dependents := by
  rw [transition, emit_dependents, setRow_dependents]

/-- A transition that keeps the state delivers no event. -/
theorem transition_eq_setRow (b : Broker) (id : String) (old new : TaskRow) (now : Time)
    (h : old.state = new.state) : b.transition id old new now = b.setRow id new := by
  simp [transition, emit, derive, h]

@[simp] theorem removeDependent_tasks (b : Broker) (d t : String) : (b.removeDependent d t).tasks = b.tasks := by
  unfold removeDependent
  split
  · rfl
  · dsimp only
    split <;> rfl

@[simp] theorem removeDependents_tasks (b : Broker) (ds : List String) (t : String) :
    (b.removeDependents ds t).tasks = b.tasks := by
  induction ds generalizing b with
  | nil => rfl
  | cons d rest ih =>
    rw [removeDependents, List.foldl_cons]
    exact (ih (b.removeDependent d t)).trans (removeDependent_tasks b d t)

/-- The lookup of an active row succeeds exactly when the task is active under the lease. -/
theorem activeRow_eq_ok_iff (b : Broker) (taskID leaseID : String) (row : TaskRow) :
    b.activeRow taskID leaseID = .ok row ↔
      b.tasks.lookup taskID = some row ∧ row.state = .active ∧ row.leaseID = leaseID := by
  unfold activeRow
  cases hrow : b.tasks.lookup taskID with
  | none => simp
  | some stored =>
    by_cases hlost : stored.state ≠ .active ∨ stored.leaseID ≠ leaseID
    · simp only [if_pos hlost, Option.some.injEq]
      constructor
      · intro h
        cases h
      · rintro ⟨rfl, hstate, hlease⟩
        exact absurd hlost (by simp [hstate, hlease])
    · simp only [if_neg hlost, Option.some.injEq]
      constructor
      · intro h
        cases h
        exact ⟨rfl, by simpa [not_or] using hlost⟩
      · rintro ⟨rfl, -, -⟩
        rfl

/-- The lookup of an active row fails only with a lost lease. -/
theorem activeRow_eq_error (b : Broker) (taskID leaseID : String) (h : ¬ b.ActiveUnder taskID leaseID) :
    b.activeRow taskID leaseID = .error .leaseLost := by
  cases hrow : b.activeRow taskID leaseID with
  | ok row => exact absurd ⟨row, (activeRow_eq_ok_iff b taskID leaseID row).mp hrow⟩ h
  | error e =>
    unfold activeRow at hrow
    split at hrow
    · cases hrow
      rfl
    · split at hrow
      · cases hrow
        rfl
      · cases hrow

/-- Who waits on what after one waiting record is added. -/
theorem mem_waiters_addDependent (b : Broker) (d t d' t' : String) :
    t' ∈ (b.addDependent d t).waiters d' ↔ (d' = d ∧ t' = t) ∨ t' ∈ b.waiters d' := by
  unfold addDependent waiters
  simp only [GoMap.lookup_insert_eq_ite]
  rcases eq_or_ne d' d with rfl | hd
  · simp
  · simp [hd]

/-- Who waits on what after one waiting record is cleared. -/
theorem mem_waiters_removeDependent (b : Broker) (d t d' t' : String) :
    t' ∈ (b.removeDependent d t).waiters d' ↔ ¬(d' = d ∧ t' = t) ∧ t' ∈ b.waiters d' := by
  unfold removeDependent
  cases hd : b.dependents.lookup d with
  | none =>
    rcases eq_or_ne d' d with rfl | hdd
    · simp [waiters, hd]
    · simp [hdd]
  | some ws =>
    simp only
    split_ifs with hnil
    · simp only [waiters, GoMap.lookup_erase_eq_ite]
      rcases eq_or_ne d' d with rfl | hdd
      · have hgone : t' ∉ ws.erase t := by
          rw [AList.mem_keys, hnil]
          exact List.not_mem_nil
        simp only [AList.mem_erase, not_and] at hgone
        simp only [if_pos, hd, Option.getD_none, Option.getD_some, true_and]
        constructor
        · intro h
          exact absurd h (AList.notMem_empty t')
        · rintro ⟨hne, hmem⟩
          exact absurd hmem (hgone hne)
      · simp [hdd]
    · simp only [waiters, GoMap.lookup_insert_eq_ite]
      rcases eq_or_ne d' d with rfl | hdd
      · simp [hd]
      · simp [hdd]

end Broker

end Conveyor
