import Conveyor.Broker.Admin
import Conveyor.Broker.Dependents
import Conveyor.Broker.Enqueue
import Conveyor.Broker.Lease
import Conveyor.Broker.Maintenance

/-!
# Runs of broker operations

Operations are serialised by the broker's mutex, so a run is a list of invocations: the call, the
clock reading it sees, and the iteration orders its loops over maps happen to take. Operations that
only read are left out, since they change nothing a later operation sees.
-/

namespace Conveyor

open Lib

/-- A state-changing operation of the broker interface with its arguments. -/
inductive Call where
  | enqueue (task : TaskEnvelope)
  | enqueueBatch (tasks : List TaskEnvelope)
  | lease (queue : String) (limit : Int) (ttl : Duration) (leaseID : String)
  | leaseGroup (queue group : String) (limit : Int) (ttl : Duration) (leaseID : String)
  | extendLease (taskID leaseID : String) (ttl : Duration)
  | setProgress (taskID leaseID : String) (percent : UInt32) (message : String)
  | ack (taskID leaseID : String)
  | ackBatch (items : List AckItem)
  | fail (taskID leaseID errMsg : String) (processAt : Time)
  | release (taskID leaseID : String)
  | archive (taskID leaseID errMsg : String)
  | reapExpiredLeases (limit : Int)
  | promoteScheduled (limit : Int)
  | resolveDependents (taskID : String)
  | promoteReadyDependents (limit : Int)
  | purgeTerminal (archiveRetention : Duration) (limit : Int)
  | archiveExpired (limit : Int)
  | cancelTask (id : String)
  | deleteTask (id : String)
  | runTaskNow (id : String)
  | rescheduleTask (id : String) (processAt : Time)
  | archiveTask (id : String)
  | setQueuePaused (queue : String) (paused : Bool)
  | setQueueConcurrencyLimit (queue : String) (maxActive : Int)
  | deleteQueueConcurrencyLimit (queue : String)
  deriving DecidableEq

/-- What an operation returns. -/
inductive Reply where
  | ok
  | error (cause : BrokerError)
  | leased (tasks : List TaskEnvelope)
  | acked (taskIDs : List String)
  | queues (names : List String)
  | count (rows : Nat)
  deriving DecidableEq

/-- The iteration orders of the loops inside one operation. -/
structure Iteration where
  tasks : MapOrder String := .listed
  finished : MapOrder String := .listed
  queues : MapOrder String := .listed
  resolve : String → ResolveOrder := fun _ => {}

/-- One operation of a run. -/
structure Invocation where
  now : Time
  call : Call
  order : Iteration := {}

/-- The store and the reply of an operation that may fail; a failed one changes nothing. -/
def Broker.outcome (b : Broker) : Except BrokerError Broker → Broker × Reply
  | .ok b' => (b', .ok)
  | .error e => (b, .error e)

/-- Carry out one invocation. -/
def Broker.exec (b : Broker) (i : Invocation) : Broker × Reply :=
  match i.call with
  | .enqueue task => b.outcome (b.enqueue i.now task)
  | .enqueueBatch tasks => b.outcome (b.enqueueBatch i.now tasks)
  | .lease queue limit ttl leaseID =>
    (b.lease i.now i.order.tasks queue limit ttl leaseID).map id .leased
  | .leaseGroup queue group limit ttl leaseID =>
    (b.leaseGroup i.now i.order.tasks queue group limit ttl leaseID).map id .leased
  | .extendLease taskID leaseID ttl => b.outcome (b.extendLease i.now taskID leaseID ttl)
  | .setProgress taskID leaseID percent message =>
    b.outcome (b.setProgress i.now taskID leaseID percent message)
  | .ack taskID leaseID => b.outcome (b.ack i.now taskID leaseID)
  | .ackBatch items => (b.ackBatch i.now items).map id .acked
  | .fail taskID leaseID errMsg processAt => b.outcome (b.fail i.now taskID leaseID errMsg processAt)
  | .release taskID leaseID => b.outcome (b.release i.now taskID leaseID)
  | .archive taskID leaseID errMsg => b.outcome (b.archive i.now taskID leaseID errMsg)
  | .reapExpiredLeases limit =>
    (b.reapExpiredLeases i.now i.order.tasks i.order.queues limit).map id .queues
  | .promoteScheduled limit =>
    (b.promoteScheduled i.now i.order.tasks i.order.queues limit).map id .queues
  | .resolveDependents taskID =>
    (b.resolveDependents (i.order.resolve taskID) taskID i.now).map id .queues
  | .promoteReadyDependents limit =>
    (b.promoteReadyDependents i.now i.order.tasks i.order.finished i.order.queues i.order.resolve
      limit).map id .queues
  | .purgeTerminal archiveRetention limit =>
    (b.purgeTerminal i.now i.order.tasks archiveRetention limit).map id .count
  | .archiveExpired limit => (b.archiveExpired i.now i.order.tasks limit).map id .count
  | .cancelTask id => b.outcome (b.cancelTask i.now id)
  | .deleteTask id => b.outcome (b.deleteTask id)
  | .runTaskNow id => b.outcome (b.runTaskNow i.now id)
  | .rescheduleTask id processAt => b.outcome (b.rescheduleTask i.now id processAt)
  | .archiveTask id => b.outcome (b.archiveTask i.now id)
  | .setQueuePaused queue paused => (b.setQueuePaused queue paused, .ok)
  | .setQueueConcurrencyLimit queue maxActive => (b.setQueueConcurrencyLimit queue maxActive, .ok)
  | .deleteQueueConcurrencyLimit queue => (b.deleteQueueConcurrencyLimit queue, .ok)

/-- The store after an invocation. -/
def Broker.after (b : Broker) (i : Invocation) : Broker := (b.exec i).1

/-- The store after a run. -/
def Broker.run (b : Broker) (invocations : List Invocation) : Broker :=
  invocations.foldl Broker.after b

@[simp] theorem Broker.run_nil (b : Broker) : b.run [] = b := rfl

@[simp] theorem Broker.run_cons (b : Broker) (i : Invocation) (rest : List Invocation) :
    b.run (i :: rest) = (b.after i).run rest := rfl

@[simp] theorem Broker.run_append (b : Broker) (first second : List Invocation) :
    b.run (first ++ second) = (b.run first).run second := List.foldl_append

/-- What every operation preserves holds after every run. -/
theorem Broker.run_induction {P : Broker → Prop} (b : Broker) (invocations : List Invocation)
    (hstart : P b) (hstep : ∀ b i, i ∈ invocations → P b → P (b.after i)) : P (b.run invocations) := by
  induction invocations generalizing b with
  | nil => exact hstart
  | cons i rest ih =>
    rw [Broker.run_cons]
    apply ih (b.after i) (hstep b i (.head _) hstart)
    intro b' i' hi'
    exact hstep b' i' (.tail i hi')

/-- Every invocation of a run meets a condition on the store it starts in. -/
def Broker.StepsMeet (P : Broker → Invocation → Prop) (b : Broker) : List Invocation → Prop
  | [] => True
  | i :: rest => P b i ∧ (b.after i).StepsMeet P rest

/-- The condition on a run that ends with one more invocation. -/
theorem Broker.stepsMeet_append {P : Broker → Invocation → Prop} (first second : List Invocation) (b : Broker) :
    b.StepsMeet P (first ++ second) ↔ b.StepsMeet P first ∧ (b.run first).StepsMeet P second := by
  induction first generalizing b with
  | nil => simp [StepsMeet]
  | cons i rest ih => simp [StepsMeet, ih, and_assoc]

/-- The lease id a call hands out, if it claims tasks. -/
def Call.leaseID? : Call → Option String
  | .lease _ _ _ leaseID => some leaseID
  | .leaseGroup _ _ _ _ leaseID => some leaseID
  | _ => none

/-- The tasks a call commits. -/
def Call.enqueued : Call → List TaskEnvelope
  | .enqueue task => [task]
  | .enqueueBatch tasks => tasks
  | _ => []

/-- The finished tasks a resolving invocation starts from. -/
def Broker.seeds (b : Broker) (i : Invocation) : List String :=
  match i.call with
  | .resolveDependents taskID => [taskID]
  | .promoteReadyDependents limit =>
    (i.order.finished.visit b.finishedDependencies).take limit.toNat
  | _ => []

/-- Whether a call resolves dependency edges. -/
def Call.resolves : Call → Bool
  | .resolveDependents _ | .promoteReadyDependents _ => true
  | _ => false

end Conveyor
