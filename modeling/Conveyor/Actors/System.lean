import Conveyor.Actors.QueueGrain
import Conveyor.Actors.WebhookGateway
import Conveyor.Lib.Bag
import Conveyor.Lib.Run

/-!
# The actor system

Queue grains, gateways, the in-memory broker, and everything on its way between them. Messages wait in
bags and are handled in any order or never, so loss and delay need no events of their own. The
environment is open: producers, admins, the reaper and the resolver call the broker whenever they like,
and workers and endpoints send whatever the session check lets through. The logs at the end of the
state record what happened; no handler reads them, and the lease ids in them are what keeps new ids new.
-/

namespace Conveyor

open Lib

/-- A gateway of either kind. -/
inductive GatewayActor where
  | stream (g : Gateway)
  | webhook (w : WebhookGateway)

namespace GatewayActor

/-- Whether the gateway is in the middle of a turn. -/
def busy : GatewayActor → Bool
  | .stream g => !g.turn.isEmpty
  | .webhook w => !w.turn.isEmpty

/-- Whether the gateway was told to stop. -/
def draining : GatewayActor → Bool
  | .stream g => g.draining
  | .webhook w => w.draining

/-- The first part of a turn. -/
def receive (settings : Settings) (turn : GatewayTurn) (message : GatewayMessage) :
    GatewayActor → GatewayActor × List GatewayEffect
  | .stream g => (g.receive turn message).map .stream id
  | .webhook w => (w.receive settings turn message).map .webhook id

/-- The broker call the turn makes next, if its next piece of work makes one. -/
def nextCall (settings : Settings) (turn : GatewayTurn) : GatewayActor → Option Call
  | .stream g => g.turn.head?.bind (g.call settings turn)
  | .webhook w => w.turn.head?.bind (w.call settings turn)

/-- The next piece of work of the turn, with the broker's answer. -/
def resume (settings : Settings) (turn : GatewayTurn) (reply : Reply) :
    GatewayActor → GatewayActor × List GatewayEffect
  | .stream g =>
    match g.turn with
    | [] => (.stream g, [])
    | work :: rest => (Gateway.finish turn { g with turn := rest } reply work).map .stream id
  | .webhook w =>
    match w.turn with
    | [] => (.webhook w, [])
    | work :: rest =>
      (WebhookGateway.finish settings turn { w with turn := rest } reply work).map .webhook id

/-- What the environment may send a gateway: ticks, stops, worker frames that pass the session check,
callbacks of the endpoint and registration updates. -/
def admits : GatewayActor → GatewayMessage → Bool
  | _, .postStart | _, .registerTick | _, .drainSession => true
  | .stream g, .result result none => accepts g.session.concurrency (.result result)
  | .stream g, .batchResult results none => accepts g.session.concurrency (.batchResult results)
  | .stream g, .heartbeat ids => accepts g.session.concurrency (.heartbeat ids)
  | .stream g, .progress taskID percent message =>
    accepts g.session.concurrency (.progress taskID percent message)
  | .stream g, .credit n => accepts g.session.concurrency (.credit n)
  | .webhook _, .updateRegistration _ | .webhook _, .leaseHeartbeat .. | .webhook _, .leaseResult .. =>
    true
  | _, _ => false

end GatewayActor

/-- A broker call a grain started off its turn, or the rest of one. -/
inductive Pipe where
  | lease (queue : String) (limit : Int) (leaseID : String) (expiresAt : Time)
  | leaseGroup (queue group type : String) (limit : Int) (leaseID : String) (expiresAt : Time)
  | release (queue leaseID : String) (taskIDs : List String) (released failed : Nat)

/-- The queue of the grain that started a pipe. -/
def Pipe.queue : Pipe → String
  | .lease queue .. | .leaseGroup queue .. | .release queue .. => queue

/-- The lease id a pipe is about to hand out. -/
def Pipe.leaseID? : Pipe → Option String
  | .lease _ _ leaseID _ | .leaseGroup _ _ _ _ leaseID _ => some leaseID
  | .release .. => none

/-- A dispatch that reached a gateway. It is open until the worker or the endpoint has answered, and
closed from the start when it could not be sent. -/
structure Delivery where
  gateway : String
  queue : String
  leaseID : String
  tasks : List String
  batch : Bool
  open_ : Bool
  aborted : Bool := false
  deriving DecidableEq

/-- An `ExecuteTask` a grain sent. -/
structure Sent where
  queue : String
  taskID : String
  leaseID : String
  deriving DecidableEq

/-- A transition, or a parking, that a gateway carried out on behalf of an answer. -/
structure Applied where
  gateway : String
  taskID : String
  leaseID : String
  cause : Option Nat
  deriving DecidableEq

/-- The actors, what is in transit between them, and the logs. -/
structure System where
  broker : Broker := {}
  grains : String → QueueGrain
  gateways : String → Option GatewayActor
  toGrain : List (String × GrainMessage) := []
  toGateway : List (String × GatewayMessage) := []
  pipes : List Pipe := []
  /-- The lease ids handed out, each with the queue it was handed out for. -/
  leases : List (String × String) := []
  deliveries : List Delivery := []
  sent : List Sent := []
  applied : List Applied := []

/-- How a worker or an endpoint answers a delivery. -/
inductive Answer where
  | result (outcome : TaskOutcome) (errorMsg : String)
  | batchResult (results : List Result)
  | response (answer : WebhookAnswer)
  | responses (outcomes : GoMap String WebhookAnswer) (transportError : String)

/-- The message an answer to a delivery becomes; a batch result names only members of the batch, and
an aborted request ends in a transport failure. -/
def Delivery.report (d : Delivery) (number : Nat) : GatewayActor → Answer → Option GatewayMessage
  | .stream g, .result outcome errorMsg =>
    match d.batch, d.tasks with
    | false, [taskID] =>
      let result : Result := ⟨taskID, outcome, errorMsg⟩
      if accepts g.session.concurrency (.result result) then some (.result result (some number)) else none
    | _, _ => none
  | .stream g, .batchResult results =>
    if d.batch && results.all (fun result => d.tasks.contains result.taskId) &&
        accepts g.session.concurrency (.batchResult results) then
      some (.batchResult results (some number))
    else none
  | .webhook _, .response answer =>
    match d.batch, d.tasks with
    | false, [taskID] =>
      if d.aborted && decide (answer.outcome ≠ .transportFailure) then none
      else some (.webhookDelivery taskID answer number)
    | _, _ => none
  | .webhook _, .responses outcomes transportError =>
    if !d.batch || (d.aborted && transportError == "") then none
    else some (.webhookBatchDelivery d.leaseID outcomes transportError number)
  | _, _ => none

/-- A delivery without its progress. -/
def Delivery.core (d : Delivery) : Delivery := { d with open_ := false, aborted := false }

/-- One step of the system. Piped calls report back; that one fails in the actor runtime, or that a grain is activated
again, is an `Occurrence`. -/
inductive Event where
  | broker (invocation : Invocation)
  | tellGrain (queue : String) (message : GrainMessage)
  | tellGateway (name : String) (message : GatewayMessage)
  | grain (index : Nat) (turn : GrainTurn)
  | gateway (index : Nat) (turn : GatewayTurn)
  | resume (name : String) (turn : GatewayTurn) (order : Iteration)
  | pipe (index : Nat) (now : Time) (order : Iteration)
  | answer (delivery : Nat) (answer : Answer)

/-- An event, or what the actor runtime does on its own: a piped call fails outside its task function, before or after
its broker call, and the grain is told so; and a grain is activated again, as after a passivation. -/
inductive Occurrence where
  | event (e : Event)
  | pipeFails (index : Nat) (called : Option (Time × Iteration))
  | activates (queue : String)

/-- Broker calls that come from outside the actors: producers, admins, the reaper, the resolver. -/
def Call.external : Call → Bool
  | .lease .. | .leaseGroup .. | .extendLease .. | .setProgress .. | .ack .. | .ackBatch _ | .fail ..
  | .release .. | .archive .. | .setQueuePaused .. => false
  | _ => true

/-- Messages to a grain that come from outside the actors: hints, fired groups, admin requests, and
the unregistration of a gateway that was stopped. -/
def System.mayTell (s : System) : GrainMessage → Bool
  | .taskEnqueued | .tasksAvailable | .fireGroup .. | .cancelActive _ | .drainQueue | .resumeQueue
  | .rateLimitChanged | .concurrencyLimitChanged _ => true
  | .unregisterGateway name => (s.gateways name).any GatewayActor.draining
  | _ => false

namespace GrainEffect

/-- The message an effect sends to a gateway. -/
def message : GrainEffect → Option (String × GatewayMessage)
  | .executeTask gateway task leaseID expiresAt => some (gateway, .executeTask task leaseID expiresAt)
  | .executeBatch gateway tasks leaseID expiresAt group =>
    some (gateway, .executeBatch tasks leaseID expiresAt group)
  | .cancelActive gateway taskID => some (gateway, .cancelActive taskID)
  | _ => none

/-- The pipe an effect starts. -/
def pipe (queue : String) : GrainEffect → Option Pipe
  | .lease limit leaseID expiresAt => some (.lease queue limit leaseID expiresAt)
  | .leaseGroup group type limit leaseID expiresAt =>
    some (.leaseGroup queue group type limit leaseID expiresAt)
  | .release leaseID tasks => some (.release queue leaseID (tasks.map TaskEnvelope.id) 0 0)
  | _ => none

/-- The record of a dispatched task. -/
def sent (queue : String) : GrainEffect → Option Sent
  | .executeTask _ task leaseID _ => some ⟨queue, task.id, leaseID⟩
  | _ => none

/-- The pause flag an effect persists. -/
def persist (queue : String) (b : Broker) : GrainEffect → Broker
  | .setPaused paused => b.setQueuePaused queue paused
  | _ => b

end GrainEffect

namespace GatewayEffect

/-- The message an effect sends to a grain. -/
def message : GatewayEffect → Option (String × GrainMessage)
  | .tellGrain queue message => some (queue, message)
  | _ => none

/-- The message an effect schedules for the gateway itself. -/
def later (name : String) : GatewayEffect → Option (String × GatewayMessage)
  | .tellSelf message => some (name, message)
  | _ => none

/-- The delivery an effect starts. -/
def delivery (name : String) : GatewayEffect → Option Delivery
  | .deliver queue leaseID tasks batch sent => some ⟨name, queue, leaseID, tasks, batch, sent, false⟩
  | _ => none

/-- The request an effect aborts. -/
def aborted : GatewayEffect → Option Nat
  | .abort delivery => some delivery
  | _ => none

/-- The record of an applied answer. -/
def record (name : String) : GatewayEffect → Option Applied
  | .applied taskID leaseID cause => some ⟨name, taskID, leaseID, cause⟩
  | _ => none

end GatewayEffect

namespace System

/-- Replace the state of one grain. -/
def setGrain (s : System) (queue : String) (x : QueueGrain) : System :=
  { s with grains := Function.update s.grains queue x }

/-- Replace the state of one gateway. -/
def setGateway (s : System) (name : String) (a : GatewayActor) : System :=
  { s with gateways := Function.update s.gateways name (some a) }

/-- Carry out the effects of a grain's turn. -/
def emitGrain (s : System) (queue : String) (effects : List GrainEffect) : System :=
  { s with
    broker := effects.foldl (GrainEffect.persist queue) s.broker
    toGateway := s.toGateway ++ effects.filterMap GrainEffect.message
    pipes := s.pipes ++ effects.filterMap (GrainEffect.pipe queue)
    sent := s.sent ++ effects.filterMap (GrainEffect.sent queue) }

/-- Mark a request as aborted. -/
def abortDelivery (deliveries : List Delivery) (number : Nat) : List Delivery :=
  deliveries.modify number fun d => { d with aborted := true }

/-- Carry out the effects of a gateway's turn. -/
def emitGateway (s : System) (name : String) (effects : List GatewayEffect) : System :=
  { s with
    toGrain := s.toGrain ++ effects.filterMap GatewayEffect.message
    toGateway := s.toGateway ++ effects.filterMap (GatewayEffect.later name)
    deliveries := (effects.filterMap GatewayEffect.aborted).foldl abortDelivery s.deliveries ++
      effects.filterMap (GatewayEffect.delivery name)
    applied := s.applied ++ effects.filterMap (GatewayEffect.record name) }

/-- A lease id that was never handed out and is not about to be. -/
def fresh (s : System) (leaseID : String) : Bool :=
  leaseID != "" && s.leases.all (·.1 != leaseID) && s.pipes.all (·.leaseID? != some leaseID)

/-- A grain handles one message. -/
def grainTurn (settings : Settings) (s : System) (turn : GrainTurn) (queue : String)
    (message : GrainMessage) : System :=
  let (x, effects) := (s.grains queue).receive settings turn message
  (s.setGrain queue x).emitGrain queue effects

/-- A gateway starts a turn. -/
def gatewayTurn (settings : Settings) (s : System) (turn : GatewayTurn) (name : String)
    (message : GatewayMessage) (a : GatewayActor) : System :=
  let (a, effects) := a.receive settings { turn with delivery := s.deliveries.length } message
  (s.setGateway name a).emitGateway name effects

/-- A gateway goes on with its turn. -/
def gatewayResume (settings : Settings) (s : System) (turn : GatewayTurn) (order : Iteration)
    (name : String) (a : GatewayActor) : System :=
  let (b, reply) :=
    match a.nextCall settings turn with
    | none => (s.broker, .ok)
    | some call => s.broker.exec ⟨turn.now, call, order⟩
  let (a, effects) := a.resume settings turn reply
  ({ s with broker := b }.setGateway name a).emitGateway name effects

/-- The tasks a claiming call returned. -/
def leasedTasks : Reply → List TaskEnvelope
  | .leased tasks => tasks
  | _ => []

/-- A piped call makes its next broker call, or reports back. -/
def pipeStep (settings : Settings) (s : System) (now : Time) (order : Iteration) : Pipe → System
  | .lease queue limit leaseID expiresAt =>
    let (b, reply) := s.broker.exec ⟨now, .lease queue limit settings.leaseTTL leaseID, order⟩
    { s with
      broker := b
      leases := s.leases ++ [(leaseID, queue)]
      toGrain := s.toGrain ++ [(queue, .leaseCycleCompleted leaseID expiresAt "" (leasedTasks reply))] }
  | .leaseGroup queue group type limit leaseID expiresAt =>
    let (b, reply) := s.broker.exec ⟨now, .leaseGroup queue group limit settings.leaseTTL leaseID, order⟩
    { s with
      broker := b
      leases := s.leases ++ [(leaseID, queue)]
      toGrain := s.toGrain ++ [(queue, .groupLeaseCompleted leaseID expiresAt group type "" (leasedTasks reply))] }
  | .release queue _ [] released failed =>
    { s with toGrain := s.toGrain ++ [(queue, .leasedTasksReleased released failed)] }
  | .release queue leaseID (taskID :: rest) released failed =>
    let (b, reply) := s.broker.exec ⟨now, .release taskID leaseID, order⟩
    { s with
      broker := b
      pipes := s.pipes ++
        [if reply = .ok then .release queue leaseID rest (released + 1) failed
         else .release queue leaseID rest released (failed + 1)] }

/-- A worker or an endpoint answers an open delivery. -/
def answerDelivery (s : System) (number : Nat) (answer : Answer) (d : Delivery) : Option System :=
  match s.gateways d.gateway with
  | none => none
  | some a =>
    (d.report number a answer).map fun message =>
      { s with
        deliveries := s.deliveries.modify number fun d => { d with open_ := false }
        toGateway := s.toGateway ++ [(d.gateway, message)] }

/-- One step; an event that cannot happen leaves the system as it is. -/
def step (settings : Settings) (s : System) : Event → System
  | .broker invocation =>
    if invocation.call.external then { s with broker := s.broker.after invocation } else s
  | .tellGrain queue message =>
    if s.mayTell message then { s with toGrain := s.toGrain ++ [(queue, message)] } else s
  | .tellGateway name message =>
    if (s.gateways name).any (·.admits message) then
      { s with toGateway := s.toGateway ++ [(name, message)] }
    else s
  | .grain index turn =>
    match takeAt s.toGrain index with
    | none => s
    | some ((queue, message), rest) =>
      if s.fresh turn.newID then { s with toGrain := rest }.grainTurn settings turn queue message else s
  | .gateway index turn =>
    match takeAt s.toGateway index with
    | none => s
    | some ((name, message), rest) =>
      match s.gateways name with
      | none => s
      | some a =>
        if a.busy then s else { s with toGateway := rest }.gatewayTurn settings turn name message a
  | .resume name turn order =>
    match s.gateways name with
    | none => s
    | some a => if a.busy then s.gatewayResume settings turn order name a else s
  | .pipe index now order =>
    match takeAt s.pipes index with
    | none => s
    | some (pipe, rest) => { s with pipes := rest }.pipeStep settings now order pipe
  | .answer number answer =>
    match s.deliveries[number]? with
    | none => s
    | some d => if d.open_ then (s.answerDelivery number answer d).getD s else s

/-- What a piped call has done before it fails: its next broker call, or nothing. -/
def madeCall (settings : Settings) (s : System) (called : Option (Time × Iteration)) (pipe : Pipe) : System :=
  match called with
  | none => s
  | some (now, order) => s.pipeStep settings now order pipe

/-- One step, of the system or of the actor runtime. -/
def occur (settings : Settings) (s : System) : Occurrence → System
  | .event e => s.step settings e
  | .pipeFails index called =>
    match takeAt s.pipes index with
    | none => s
    | some (pipe, rest) =>
      { s.madeCall settings called pipe with
        pipes := rest
        toGrain := s.toGrain ++ [(pipe.queue, .statusFailure)] }
  | .activates queue =>
    s.setGrain queue (.activate queue ((s.broker.pausedQueues.lookup queue).getD false)
      (s.broker.concurrencyLimits.lookup queue))

end System

/-- What a system starts from: persisted queue settings, worker sessions and registrations. -/
structure Deployment where
  pausedQueues : GoMap String Bool := ∅
  concurrencyLimits : GoMap String Int := ∅
  sessions : List GatewaySession := []
  registrations : List WebhookWorker := []

/-- The gateway of an actor name. -/
def Deployment.gateway (d : Deployment) (name : String) : Option GatewayActor :=
  match (d.sessions.map Gateway.preStart).find? (·.name == name) with
  | some g => some (.stream g)
  | none =>
    ((d.registrations.map WebhookGateway.preStart).find? (·.name == name)).map .webhook

/-- The system as it starts: every grain activated, every gateway about to register, no tasks. -/
def System.start (d : Deployment) : System where
  broker := { pausedQueues := d.pausedQueues, concurrencyLimits := d.concurrencyLimits }
  grains := fun queue =>
    .activate queue ((d.pausedQueues.lookup queue).getD false) (d.concurrencyLimits.lookup queue)
  gateways := d.gateway

end Conveyor
