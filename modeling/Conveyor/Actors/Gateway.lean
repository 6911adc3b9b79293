import Conveyor.Actors.Capacity
import Conveyor.Actors.Session
import Conveyor.Broker.Call

/-!
# The stream gateway

The bridge between the queue grains and one worker stream. It alone carries out the durable
transitions for its worker's tasks. A turn calls the broker while it runs, and other components call
the broker in between, so a turn is cut at its broker calls: handling a message does the private
bookkeeping and leaves the calls still to make in `turn`, and each of them is one step of its own. The
next message is handled when no call is left. Metrics, counters and logging are left out.
-/

namespace Conveyor

open Lib

/-- Prefixes the archive reason when a retryable failure finds no retries left. -/
def retriesExhaustedMessage : String := "retries exhausted: "

/-- Prefixes the archive reason when an admin canceled the task while it ran. -/
def canceledByAdminMessage : String := "canceled by admin: "

/-- The durable transition of one finished delivery, and whether it ends the task. -/
def applyOutcome (now : Time) (delay : Duration) (entry : InflightTask) (result : Result) : Call × Bool :=
  let archive := fun reason => (Call.archive result.taskId entry.leaseID reason, true)
  match result.outcome with
  | .success => (.ack result.taskId entry.leaseID, true)
  | .retry =>
    if entry.cancelRequested then archive (canceledByAdminMessage ++ result.errorMsg)
    else if entry.retried ≥ entry.maxRetry then archive (retriesExhaustedMessage ++ result.errorMsg)
    else (.fail result.taskId entry.leaseID result.errorMsg (now + delay), false)
  | .skipRetry => archive result.errorMsg
  | .released =>
    if entry.cancelRequested then archive (canceledByAdminMessage ++ result.errorMsg)
    else (.release result.taskId entry.leaseID, false)
  -- a version skew: redelivery is always safe
  | .unspecified | .unrecognized _ => (.release result.taskId entry.leaseID, false)

/-- What follows a transition that the broker carried out: its record, and the resolution of the
task's dependents when the task ended. -/
def transitionEffects (entry : InflightTask) (result : Result) (terminated : Bool)
    (cause : Option Nat) (reply : Reply) : List GatewayEffect :=
  if reply = .ok then
    .applied result.taskId entry.leaseID cause :: (if terminated then [.resolveDependents result.taskId] else [])
  else []

/-- Whether a delivery counts as a success once the broker has answered. -/
def succeeded (result : Result) (reply : Reply) : Bool :=
  decide (reply = .ok) && decide (result.outcome = .success)

/-- Tell the grain of a queue something; a queue that is not served has no grain to tell. -/
def tellServed (served : Bool) (queue : String) (message : GrainMessage) : List GatewayEffect :=
  if served then [.tellGrain queue message] else []

/-- Withhold a completion report while the breaker of the task type is open; a report that cannot
be scheduled goes out at once. -/
def deferReport (turn : GatewayTurn) (queue taskID : String) (success : Bool)
    (report : List GatewayEffect) : List GatewayEffect :=
  if turn.typeBreaker = .open_ ∧ turn.scheduled then
    [.tellSelf (.deferredCompletion queue taskID success)]
  else report

/-- The record of a task dispatched under a lease. -/
def trackedTask (task : TaskEnvelope) (leaseID : String) : InflightTask :=
  { leaseID := leaseID, queue := task.queue, taskType := task.type, retried := task.retried,
    maxRetry := task.options.maxRetry }

/-- Track the members of a batch under its lease. -/
def trackAll (leaseID : String) (tasks : List TaskEnvelope) (inflight : GoMap String InflightTask) :
    GoMap String InflightTask :=
  tasks.foldl (fun inflight task => inflight.insert task.id (trackedTask task leaseID)) inflight

/-- One accepted worker session. -/
structure GatewaySession where
  sessionID : String
  queues : List String
  weights : GoMap String Int32
  concurrency : Int32
  batchTypes : List String := []

/-- A broker call a turn has still to make, with what its answer is for. -/
inductive GatewayWork where
  | release (taskID leaseID : String)
  | settle (entry : InflightTask) (result : Result) (cause : Option Nat)
  | settleMember (entry : InflightTask) (result : Result) (cause : Option Nat)
  | ackBatch (items : List AckItem) (queue : String) (total : Nat) (cause : Option Nat)
  | extendLease (taskID : String)
  | setProgress (taskID leaseID : String) (percent : UInt32) (message : String)

/-- The gateway of one worker stream. -/
structure Gateway where
  session : GatewaySession
  name : String
  capacities : GoMap String Int32
  inflight : GoMap String InflightTask := ∅
  batches : GoMap String (List String) := ∅
  draining : Bool := false
  turn : List GatewayWork := []

namespace Gateway

/-- A gateway as it starts for an accepted session. -/
def preStart (session : GatewaySession) : Gateway :=
  { session := session
    name := "gateway-" ++ session.sessionID
    capacities := splitCapacity session.concurrency session.queues session.weights }

/-- Whether the session declared the queue. -/
def serves (g : Gateway) (queue : String) : Bool := g.session.queues.contains queue

/-- Announce the gateway and its capacity to every declared queue. -/
def register (g : Gateway) : List GatewayEffect :=
  if g.draining then []
  else
    g.session.queues.map fun queue =>
      .tellGrain queue
        (.registerGateway g.name ((g.capacities.lookup queue).getD 0)
          ((g.session.weights.lookup queue).getD 0) g.session.batchTypes)

/-- Report that one execution slot of the queue is free again. -/
def reportCompletion (g : Gateway) (queue taskID : String) (success : Bool) : List GatewayEffect :=
  tellServed (g.serves queue) queue (.taskCompleted taskID success g.name)

/-- Report a finished batch, which frees the one slot it held. -/
def reportBatchCompletion (g : Gateway) (queue : String) (total succeeded : Nat) : List GatewayEffect :=
  tellServed (g.serves queue) queue (.batchCompleted g.name total succeeded)

/-- Hand one dispatch credit back without a completion report. -/
def refillCredit (g : Gateway) (queue : String) : List GatewayEffect :=
  tellServed (g.serves queue) queue (.gatewayCredit g.name 1)

/-- Report a completion, or withhold the report. -/
def completionEffects (g : Gateway) (turn : GatewayTurn) (queue taskID : String) (success : Bool) :
    List GatewayEffect :=
  deferReport turn queue taskID success (g.reportCompletion queue taskID success)

/-- Forward one leased task down the worker stream; a broken stream releases it. -/
def dispatch (g : Gateway) (turn : GatewayTurn) (task : TaskEnvelope) (leaseID : String) :
    Gateway × List GatewayEffect :=
  let tracked := g.inflight.insert task.id (trackedTask task leaseID)
  let sent := !turn.sendFails
  (if sent then { g with inflight := tracked }
   else { g with inflight := tracked.erase task.id, turn := [.release task.id leaseID] },
   [.deliver task.queue leaseID [task.id] false sent])

/-- Forward one fired group as a single batch; a broken stream releases it. -/
def dispatchBatch (g : Gateway) (turn : GatewayTurn) (tasks : List TaskEnvelope) (leaseID : String) :
    Gateway × List GatewayEffect :=
  match tasks with
  | [] => (g, [])
  | task :: _ =>
    let ids := tasks.map TaskEnvelope.id
    let tracked := trackAll leaseID tasks g.inflight
    let batches := g.batches.insert leaseID ids
    let sent := !turn.sendFails
    (if sent then { g with inflight := tracked, batches := batches }
     else
       { g with
         inflight := ids.foldl (fun inflight id => inflight.erase id) tracked
         batches := batches.erase leaseID
         turn := ids.map fun id => .release id leaseID },
     [.deliver task.queue leaseID ids true sent])

/-- Apply a worker's result; one for an unknown task is dropped. -/
def result (g : Gateway) (result : Result) (cause : Option Nat) : Gateway :=
  match g.inflight.lookup result.taskId with
  | none => g
  | some entry =>
    { g with inflight := g.inflight.erase result.taskId, turn := [.settle entry result cause] }

/-- The result of a member: the last one given for it, or a release when it was omitted. -/
def memberResult (results : List Result) (taskID : String) : Result :=
  (results.reverse.find? (·.taskId == taskID)).getD { taskId := taskID, outcome := .released }

/-- Take the tracked members of a batch out of the map, in order. -/
def takeMembers : List String → GoMap String InflightTask →
    List (String × InflightTask) × GoMap String InflightTask
  | [], inflight => ([], inflight)
  | taskID :: rest, inflight =>
    match inflight.lookup taskID with
    | none => takeMembers rest inflight
    | some entry =>
      let (taken, left) := takeMembers rest (inflight.erase taskID)
      ((taskID, entry) :: taken, left)

/-- Whether a member's result acknowledges it. -/
def acknowledges (results : List Result) (member : String × InflightTask) : Bool :=
  decide ((memberResult results member.1).outcome = .success)

/-- The broker calls of a batch result: every member that did not succeed settles on its own, then
the successful ones are acknowledged together and the batch is reported. -/
def batchWork (results : List Result) (queue : String) (cause : Option Nat)
    (taken : List (String × InflightTask)) : List GatewayWork :=
  ((taken.filter fun member => !acknowledges results member).map fun member =>
    .settleMember member.2 (memberResult results member.1) cause) ++
  [.ackBatch ((taken.filter (acknowledges results)).map fun member => ⟨member.1, member.2.leaseID⟩)
    queue taken.length cause]

/-- Apply a batch result. The batch is found through the first known member. -/
def batchResult (g : Gateway) (results : List Result) (cause : Option Nat) : Gateway :=
  match results.findSome? fun result => g.inflight.lookup result.taskId with
  | none => g
  | some first =>
    if first.leaseID = "" then g
    else
      let members := (g.batches.lookup first.leaseID).getD []
      let (taken, left) := takeMembers members g.inflight
      { g with
        inflight := left
        batches := g.batches.erase first.leaseID
        turn := batchWork results first.queue cause taken }

/-- Return the credit of a delivery whose lease was lost; a batch returns its one credit when its
last tracked member is gone. -/
def refundLostLease (g : Gateway) (entry : InflightTask) : Gateway × List GatewayEffect :=
  match g.batches.lookup entry.leaseID with
  | none => (g, g.refillCredit entry.queue)
  | some members =>
    if members.any fun member => (g.inflight.lookup member).isSome then (g, [])
    else ({ g with batches := g.batches.erase entry.leaseID }, g.refillCredit entry.queue)

/-- Mark an admin-canceled delivery and tell the worker. -/
def cancelActive (g : Gateway) (taskID : String) : Gateway × List GatewayEffect :=
  match g.inflight.lookup taskID with
  | none => (g, [])
  | some entry =>
    ({ g with inflight := g.inflight.insert taskID { entry with cancelRequested := true } }, [.cancel taskID])

/-- Record a running task's progress under its lease. -/
def progress (g : Gateway) (taskID : String) (percent : UInt32) (message : String) : Gateway :=
  match g.inflight.lookup taskID with
  | none => g
  | some entry => { g with turn := [.setProgress taskID entry.leaseID percent message] }

/-- Release every in-flight task of a closing session. -/
def drain (g : Gateway) (turn : GatewayTurn) : Gateway :=
  { g with
    inflight := ∅
    batches := ∅
    draining := true
    turn := (turn.order.visit g.inflight).filterMap fun taskID =>
      (g.inflight.lookup taskID).map fun entry => .release taskID entry.leaseID }

/-- Forward worker-opened slots to every declared queue. -/
def credit (g : Gateway) (n : Int32) : List GatewayEffect :=
  g.session.queues.map fun queue => .tellGrain queue (.gatewayCredit g.name n)

/-- The first part of a turn: everything up to its first broker call. -/
def receive (g : Gateway) (turn : GatewayTurn) : GatewayMessage → Gateway × List GatewayEffect
  | .postStart | .registerTick => (g, g.register)
  | .drainSession => (g.drain turn, [])
  | .executeTask task leaseID _ => g.dispatch turn task leaseID
  | .executeBatch tasks leaseID _ _ => g.dispatchBatch turn tasks leaseID
  | .result result cause => (g.result result cause, [])
  | .batchResult results cause => (g.batchResult results cause, [])
  | .heartbeat ids => ({ g with turn := ids.map .extendLease }, [])
  | .progress taskID percent message => (g.progress taskID percent message, [])
  | .credit n => (g, g.credit n)
  | .cancelActive taskID => g.cancelActive taskID
  | .deferredCompletion queue taskID success => (g, g.reportCompletion queue taskID success)
  | .webhookDelivery .. | .webhookBatchDelivery .. | .leaseHeartbeat .. | .leaseResult ..
  | .updateRegistration _ => (g, [])

/-- The broker call of a piece of work, if it makes one. -/
def call (settings : Settings) (turn : GatewayTurn) (g : Gateway) : GatewayWork → Option Call
  | .release taskID leaseID => some (.release taskID leaseID)
  | .settle entry result _ | .settleMember entry result _ =>
    some (applyOutcome turn.now turn.delay entry result).1
  | .ackBatch items _ _ _ => if items = [] then none else some (.ackBatch items)
  | .extendLease taskID =>
    (g.inflight.lookup taskID).map fun entry =>
      .extendLease taskID entry.leaseID settings.leaseTTL
  | .setProgress taskID leaseID percent message => some (.setProgress taskID leaseID percent message)

/-- Forget a delivery whose lease went to another one, and cancel it at the worker. -/
def dropLost (g : Gateway) (taskID : String) (entry : InflightTask) : Gateway × List GatewayEffect :=
  let (g, refund) := refundLostLease { g with inflight := g.inflight.erase taskID } entry
  (g, refund ++ [.cancel taskID])

/-- The ids a batched acknowledgement completed. -/
def ackedIDs : Reply → List String
  | .acked taskIDs => taskIDs
  | _ => []

/-- What a piece of work does with the broker's answer. -/
def finish (turn : GatewayTurn) (g : Gateway) (reply : Reply) :
    GatewayWork → Gateway × List GatewayEffect
  | .release _ _ | .setProgress .. => (g, [])
  | .settle entry result cause =>
    (g, transitionEffects entry result (applyOutcome turn.now turn.delay entry result).2 cause reply ++
      g.completionEffects turn entry.queue result.taskId (succeeded result reply))
  -- the outcome is not a success, so the loop adds nothing to the batch's successes
  | .settleMember entry result cause =>
    (g, transitionEffects entry result (applyOutcome turn.now turn.delay entry result).2 cause reply)
  | .ackBatch items queue total cause =>
    let acked := ackedIDs reply
    (g, ((items.filter fun item => acked.contains item.taskID).flatMap fun item =>
        [.applied item.taskID item.leaseID cause, .resolveDependents item.taskID]) ++
      g.reportBatchCompletion queue total acked.length)
  | .extendLease taskID =>
    match g.inflight.lookup taskID with
    | none => (g, [])
    | some entry => if reply = .error .leaseLost then g.dropLost taskID entry else (g, [])

end Gateway

end Conveyor
