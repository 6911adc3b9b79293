import Conveyor.Broker.Registry

/-!
# Messages between the actors

What queue grains, gateways, workers and webhook endpoints tell each other. A worker frame or a
finished request also carries the number of the delivery it answers. No handler reads that number;
it records which delivery a transition came from.
-/

namespace Conveyor

open Lib

/-- How an execution ended, as a worker reports it. The wire enumeration is open. -/
inductive TaskOutcome where
  | unspecified
  | success
  | retry
  | skipRetry
  | released
  | unrecognized (value : Int32)
  deriving DecidableEq

/-- A worker's report on one task. -/
structure Result where
  taskId : String
  outcome : TaskOutcome
  errorMsg : String := ""
  deriving DecidableEq

/-- How an endpoint answered one call. -/
inductive DeliveryOutcome where
  | completed
  | accepted
  | retry
  | skipRetry
  | transportFailure
  deriving DecidableEq

/-- One finished webhook call: the classified answer and its failure detail. -/
structure WebhookAnswer where
  outcome : DeliveryOutcome
  message : String := ""
  deriving DecidableEq

/-- Messages to a queue grain. -/
inductive GrainMessage where
  | taskEnqueued
  | tasksAvailable
  | taskCompleted (taskId : String) (success : Bool) (gatewayName : String)
  | batchCompleted (gatewayName : String) (total succeeded : Nat)
  | fireGroup (group type : String) (limit : Int32)
  | groupLeaseCompleted (leaseId : String) (leaseExpiresAt : Time) (group type error : String)
      (tasks : List TaskEnvelope)
  | registerGateway (gatewayName : String) (capacity weight : Int32) (batchTypes : List String)
  | unregisterGateway (gatewayName : String)
  | gatewayCredit (gatewayName : String) (credits : Int32)
  | leaseCycleCompleted (leaseId : String) (leaseExpiresAt : Time) (error : String)
      (tasks : List TaskEnvelope)
  | leasedTasksReleased (released failed : Nat)
  | cancelActive (taskId : String)
  | drainQueue
  | resumeQueue
  | rateLimitChanged
  | concurrencyLimitChanged (maxActive : Int32)
  | statusFailure

/-- Messages to a gateway of either kind. -/
inductive GatewayMessage where
  | postStart
  | executeTask (task : TaskEnvelope) (leaseId : String) (leaseExpiresAt : Time)
  | executeBatch (tasks : List TaskEnvelope) (leaseId : String) (leaseExpiresAt : Time)
      (group : String)
  | cancelActive (taskId : String)
  | registerTick
  | drainSession
  | deferredCompletion (queue taskID : String) (success : Bool)
  -- frames a worker sends up its stream
  | result (result : Result) (answers : Option Nat)
  | batchResult (results : List Result) (answers : Option Nat)
  | heartbeat (activeTaskIds : List String)
  | progress (taskId : String) (percent : UInt32) (message : String)
  | credit (n : Int32)
  -- what a webhook gateway hears of its endpoint and its registration
  | webhookDelivery (taskID : String) (answer : WebhookAnswer) (answers : Nat)
  | webhookBatchDelivery (leaseID : String) (outcomes : GoMap String WebhookAnswer)
      (transportError : String) (answers : Nat)
  | leaseHeartbeat (taskId leaseId : String)
  | leaseResult (taskId leaseId : String) (outcome : TaskOutcome) (errorMsg : String)
  | updateRegistration (worker : WebhookWorker)

/-- What a turn of a gateway does outside it. `deliver` records a dispatch with whether it reached the
worker or started a request, and `applied` a transition with the delivery whose answer caused it. -/
inductive GatewayEffect where
  | tellGrain (queue : String) (message : GrainMessage)
  | tellSelf (message : GatewayMessage)
  | deliver (queue leaseID : String) (tasks : List String) (batch sent : Bool)
  | abort (delivery : Nat)
  | cancel (taskID : String)
  | resolveDependents (taskID : String)
  | applied (taskID leaseID : String) (cause : Option Nat)

/-- The states of a circuit breaker. -/
inductive BreakerState where
  | closed
  | open_
  | halfOpen
  deriving DecidableEq

/-- What a turn of a gateway meets outside it: the clock, the worker stream, the circuit breakers, the
scheduler, the backoff it draws, the order its loops over maps take, and the number of the next
delivery. -/
structure GatewayTurn where
  now : Time
  sendFails : Bool := false
  typeBreaker : BreakerState := .closed
  endpointBreaker : BreakerState := .closed
  scheduled : Bool := true
  delay : Duration := 0
  order : MapOrder String := .listed
  delivery : Nat := 0

/-- A gateway's record of one dispatched task. The backoff strategy enters only through the delay it
draws, which is an argument of the transition. -/
structure InflightTask where
  leaseID : String
  queue : String
  taskType : String
  retried : Int32
  maxRetry : Int32
  cancelRequested : Bool := false
  deriving DecidableEq

/-- The settings the actors read. -/
structure Settings where
  leaseBatchMax : Int
  leaseTTL : Duration
  groupMaxSize : Int
  webhookBreakerOpenTimeout : Duration

/-- The settings of a server that configures none of them. -/
def defaultSettings : Settings :=
  { leaseBatchMax := 100, leaseTTL := 60 * 10 ^ 9, groupMaxSize := 100, webhookBreakerOpenTimeout := 0 }

end Conveyor
