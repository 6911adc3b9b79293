import Conveyor.Actors.Gateway

/-!
# The webhook gateway

The delivery bridge of one webhook registration. Deliveries run off the mailbox as numbered requests
and come back as messages. An accepted delivery stays in flight, its lease driven by the endpoint's
callbacks. As for a stream gateway, the broker calls of a turn are steps of their own. The secrets,
the request bodies and the deadlines of the requests are left out.
-/

namespace Conveyor

open Lib

/-- One fired group, tracked until every member resolves. -/
structure WebhookBatch where
  queue : String
  members : List String
  remaining : Int
  succeeded : Nat := 0
  deriving DecidableEq

/-- What a turn has still to do, at most one broker call each. -/
inductive WebhookWork where
  | release (taskID leaseID : String) (open_ : Option Nat)
  | resolve (taskID : String) (result : Result) (cause : Option Nat)
  | member (taskID : String) (accepted : Bool) (result : Result) (cause : Nat)
  | extendLease (taskID : String)
  | extendAsync (taskID : String)
  | reapStale

/-- The gateway of one webhook registration. -/
structure WebhookGateway where
  registration : WebhookWorker
  name : String
  capacities : GoMap String Int32
  inflight : GoMap String InflightTask := ∅
  batchStates : GoMap String WebhookBatch := ∅
  aborts : GoMap String Nat := ∅
  async : GoMap String Time := ∅
  withholding : Bool := false
  withheldAt : Time := 0
  probing : Bool := false
  draining : Bool := false
  turn : List WebhookWork := []

/-- How long an open endpoint breaker withholds capacity when the settings leave it unset. -/
def defaultEndpointBreakerOpenTimeout : Duration := 30 * 10 ^ 9

/-- How long withheld capacity stays withheld before a probe. -/
def breakerOpenTimeout (settings : Settings) : Duration :=
  if settings.webhookBreakerOpenTimeout ≤ 0 then defaultEndpointBreakerOpenTimeout
  else settings.webhookBreakerOpenTimeout

/-- The result of one classified answer; accepted answers are parked instead. -/
def deliveryResult (taskID : String) (answer : WebhookAnswer) : Result :=
  { taskId := taskID
    errorMsg := answer.message
    outcome :=
      match answer.outcome with
      | .completed => .success
      | .skipRetry => .skipRetry
      | .accepted | .retry | .transportFailure => .retry }

/-- The result of one batch member: a retry when the whole request failed, its own answer when the
endpoint gave one, and a release when it was omitted. -/
def batchMemberResult (outcomes : GoMap String WebhookAnswer) (transportError taskID : String) : Result :=
  if transportError ≠ "" then { taskId := taskID, outcome := .retry, errorMsg := transportError }
  else
    match outcomes.lookup taskID with
    | none => { taskId := taskID, outcome := .released }
    | some answer => deliveryResult taskID answer

/-- Whether the endpoint took a batch member for asynchronous completion. -/
def memberAccepted (outcomes : GoMap String WebhookAnswer) (transportError taskID : String) : Bool :=
  (outcomes.lookup taskID).any fun answer =>
    transportError == "" && decide (answer.outcome = .accepted)

namespace WebhookGateway

/-- The registration's concurrency split across its queues by weight. -/
def splitCapacities (registration : WebhookWorker) : GoMap String Int32 :=
  splitCapacity registration.concurrency (sortFunc compareNames registration.queues.keys)
    registration.queues

/-- A gateway as it starts for a registration. -/
def preStart (registration : WebhookWorker) : WebhookGateway :=
  { registration := registration
    name := "webhook-" ++ registration.name
    capacities := splitCapacities registration }

/-- Whether the current registration declares the queue. -/
def serves (w : WebhookGateway) (queue : String) : Bool :=
  (w.registration.queues.lookup queue).isSome

/-- The capacity announced for a queue: none while withholding, one slot while probing. -/
def capacity (w : WebhookGateway) (queue : String) : Int32 :=
  if w.withholding then 0
  else if w.probing then 1
  else (w.capacities.lookup queue).getD 0

/-- Announce the gateway and its capacity to every served queue. -/
def register (w : WebhookGateway) (order : MapOrder String) : List GatewayEffect :=
  if w.draining then []
  else
    (order.visit w.registration.queues).map fun queue =>
      .tellGrain queue
        (.registerGateway w.name (w.capacity queue) ((w.registration.queues.lookup queue).getD 0)
          w.registration.batchTypes)

/-- Converge the announced capacity onto the endpoint's health. -/
def syncBreakerCapacity (settings : Settings) (w : WebhookGateway) (turn : GatewayTurn) :
    WebhookGateway × List GatewayEffect :=
  if !w.withholding && !w.probing && decide (turn.endpointBreaker = .open_) then
    let w := { w with withholding := true, withheldAt := turn.now }
    (w, w.register turn.order)
  else if w.withholding && decide (turn.now - w.withheldAt ≥ breakerOpenTimeout settings) then
    let w := { w with withholding := false, probing := true }
    (w, w.register turn.order)
  else (w, [])

/-- End or extend the probing window from the breaker's verdict on a probe. -/
def resolveProbe (w : WebhookGateway) (turn : GatewayTurn) : WebhookGateway × List GatewayEffect :=
  match turn.endpointBreaker with
  | .closed =>
    let w := { w with probing := false }
    (w, w.register turn.order)
  | .open_ =>
    let w := { w with probing := false, withholding := true, withheldAt := turn.now }
    (w, w.register turn.order)
  | .halfOpen => (w, [])

/-- Feed one transport sample to the endpoint breaker; `turn.endpointBreaker` is its state then. -/
def recordTransport (settings : Settings) (w : WebhookGateway) (turn : GatewayTurn) :
    WebhookGateway × List GatewayEffect :=
  if w.probing then w.resolveProbe turn else w.syncBreakerCapacity settings turn

/-- Swap in a fresh registration; queues no longer served are announced without capacity. -/
def apply (w : WebhookGateway) (turn : GatewayTurn) (worker : WebhookWorker) : WebhookGateway × List GatewayEffect :=
  let dropped := (turn.order.visit w.registration.queues).filter fun queue =>
    (worker.queues.lookup queue).isNone
  let withdrawn := dropped.map fun queue =>
    GatewayEffect.tellGrain queue (.registerGateway w.name 0 0 [])
  let w := { w with registration := worker, capacities := splitCapacities worker }
  (w, withdrawn ++ w.register turn.order)

/-- Report that one execution slot of the queue is free again. -/
def reportCompletion (w : WebhookGateway) (queue taskID : String) (success : Bool) : List GatewayEffect :=
  tellServed (w.serves queue) queue (.taskCompleted taskID success w.name)

/-- Report a finished batch, which frees the one slot it held. -/
def reportBatchCompletion (w : WebhookGateway) (queue : String) (total succeeded : Nat) : List GatewayEffect :=
  tellServed (w.serves queue) queue (.batchCompleted w.name total succeeded)

/-- Return the credit of a dropped delivery. -/
def refillCredit (w : WebhookGateway) (queue : String) : List GatewayEffect :=
  tellServed (w.serves queue) queue (.gatewayCredit w.name 1)

/-- Report a completion, or withhold the report. -/
def completionEffects (w : WebhookGateway) (turn : GatewayTurn) (queue taskID : String)
    (success : Bool) : List GatewayEffect :=
  deferReport turn queue taskID success (w.reportCompletion queue taskID success)

/-- Post one leased task to the endpoint. -/
def deliver (w : WebhookGateway) (turn : GatewayTurn) (task : TaskEnvelope) (leaseID : String) :
    WebhookGateway × List GatewayEffect :=
  ({ w with
     inflight := w.inflight.insert task.id (trackedTask task leaseID)
     aborts := w.aborts.insert task.id turn.delivery },
   [.deliver task.queue leaseID [task.id] false true])

/-- Post one fired group to the endpoint as a batch. -/
def deliverBatch (w : WebhookGateway) (turn : GatewayTurn) (tasks : List TaskEnvelope)
    (leaseID : String) : WebhookGateway × List GatewayEffect :=
  match tasks with
  | [] => (w, [])
  | task :: _ =>
    let ids := tasks.map TaskEnvelope.id
    ({ w with
       inflight := trackAll leaseID tasks w.inflight
       batchStates := w.batchStates.insert leaseID
         { queue := task.queue, members := ids, remaining := ids.length }
       aborts := ids.foldl (fun aborts id => aborts.insert id turn.delivery) w.aborts },
     [.deliver task.queue leaseID ids true true])

/-- Park one delivery in asynchronous mode. -/
def acceptAsync (w : WebhookGateway) (turn : GatewayTurn) (taskID : String) : WebhookGateway :=
  { w with aborts := w.aborts.erase taskID, async := w.async.insert taskID turn.now }

/-- Forget one delivery in every map. -/
def forget (w : WebhookGateway) (taskID : String) : WebhookGateway :=
  { w with
    inflight := w.inflight.erase taskID
    aborts := w.aborts.erase taskID
    async := w.async.erase taskID }

/-- Record one member's resolution; the last one reports the whole batch. -/
def resolveBatchMember (w : WebhookGateway) (leaseID : String) (state : WebhookBatch)
    (success : Bool) : WebhookGateway × List GatewayEffect :=
  let successes := if success then state.succeeded + 1 else state.succeeded
  let remaining := state.remaining - 1
  if remaining > 0 then
    ({ w with
       batchStates := w.batchStates.insert leaseID
         { state with remaining := remaining, succeeded := successes } }, [])
  else
    ({ w with batchStates := w.batchStates.erase leaseID },
      w.reportBatchCompletion state.queue state.members.length successes)

/-- Free the slot of a settled delivery: through its batch, or on its own. -/
def freeSlot (w : WebhookGateway) (turn : GatewayTurn) (taskID : String) (entry : InflightTask)
    (success : Bool) : WebhookGateway × List GatewayEffect :=
  match w.batchStates.lookup entry.leaseID with
  | some state => w.resolveBatchMember entry.leaseID state success
  | none => (w, w.completionEffects turn entry.queue taskID success)

/-- Apply one resolved delivery once the broker has answered its transition. -/
def resolveDelivery (w : WebhookGateway) (turn : GatewayTurn) (entry : InflightTask) (taskID : String) (result : Result)
    (cause : Option Nat) (reply : Reply) : WebhookGateway × List GatewayEffect :=
  let (freed, effects) := (w.forget taskID).freeSlot turn taskID entry (succeeded result reply)
  (freed, transitionEffects entry result (applyOutcome turn.now turn.delay entry result).2 cause reply ++ effects)

/-- Cancel the open request of one delivery, if any. -/
def abortRequest (w : WebhookGateway) (taskID : String) : WebhookGateway × List GatewayEffect :=
  match w.aborts.lookup taskID with
  | none => (w, [])
  | some delivery => ({ w with aborts := w.aborts.erase taskID }, [.abort delivery])

/-- Forget one delivery whose lease is gone and return the slot it held. -/
def dropDelivery (w : WebhookGateway) (taskID : String) (entry : InflightTask)
    (notifyCancel : Bool) : WebhookGateway × List GatewayEffect :=
  let w := w.forget taskID
  let notification := if notifyCancel then [GatewayEffect.cancel taskID] else []
  match w.batchStates.lookup entry.leaseID with
  | some state =>
    let (w, effects) := w.resolveBatchMember entry.leaseID state false
    (w, notification ++ effects)
  | none => (w, notification ++ w.refillCredit entry.queue)

/-- Route one delivery response; one for an unknown task is dropped. -/
def complete (settings : Settings) (w : WebhookGateway) (turn : GatewayTurn) (taskID : String)
    (answer : WebhookAnswer) (cause : Nat) : WebhookGateway × List GatewayEffect :=
  match w.inflight.lookup taskID with
  | none => (w, [])
  | some entry =>
    let (w, effects) := w.recordTransport settings turn
    if answer.outcome = .accepted then
      (w.acceptAsync turn taskID, effects ++ [.applied taskID entry.leaseID (some cause)])
    else
      ({ w with turn := [.resolve taskID (deliveryResult taskID answer) (some cause)] }, effects)

/-- Route one batch response to the members of its batch. -/
def completeBatch (settings : Settings) (w : WebhookGateway) (turn : GatewayTurn) (leaseID : String)
    (outcomes : GoMap String WebhookAnswer) (transportError : String) (cause : Nat) :
    WebhookGateway × List GatewayEffect :=
  match w.batchStates.lookup leaseID with
  | none => (w, [])
  | some state =>
    let (w, effects) := w.recordTransport settings turn
    ({ w with
       turn := state.members.map fun taskID =>
         .member taskID (memberAccepted outcomes transportError taskID)
           (batchMemberResult outcomes transportError taskID) cause }, effects)

/-- Extend an asynchronous delivery's lease on the endpoint's heartbeat; a stale lease id, an unknown
task or a synchronous delivery is dropped. -/
def heartbeatAsync (w : WebhookGateway) (taskID leaseID : String) : WebhookGateway :=
  match w.inflight.lookup taskID with
  | none => w
  | some entry =>
    if entry.leaseID = leaseID ∧ (w.async.lookup taskID).isSome then
      { w with turn := [.extendAsync taskID] }
    else w

/-- Resolve a delivery from its callback; only execution outcomes are taken. -/
def resultAsync (w : WebhookGateway) (taskID leaseID : String) (outcome : TaskOutcome)
    (errorMsg : String) : WebhookGateway :=
  match w.inflight.lookup taskID with
  | none => w
  | some entry =>
    if entry.leaseID = leaseID ∧ outcome ∈ [.success, .retry, .skipRetry] then
      { w with turn := [.resolve taskID ⟨taskID, outcome, errorMsg⟩ none] }
    else w

/-- Mark an admin-canceled delivery; an open request is aborted, an accepted one is notified. -/
def cancelActive (w : WebhookGateway) (taskID : String) : WebhookGateway × List GatewayEffect :=
  match w.inflight.lookup taskID with
  | none => (w, [])
  | some entry =>
    let w := { w with inflight := w.inflight.insert taskID { entry with cancelRequested := true } }
    if (w.async.lookup taskID).isNone then w.abortRequest taskID else (w, [.cancel taskID])

/-- Release every in-flight task of a stopping registration and abort its open requests. -/
def drain (w : WebhookGateway) (turn : GatewayTurn) : WebhookGateway :=
  { w with
    inflight := ∅
    batchStates := ∅
    aborts := ∅
    async := ∅
    draining := true
    turn := (turn.order.visit w.inflight).filterMap fun taskID =>
      (w.inflight.lookup taskID).map fun entry =>
        .release taskID entry.leaseID (w.aborts.lookup taskID) }

/-- Forget the asynchronous deliveries whose endpoint stopped heartbeating. -/
def reapStaleAsync (settings : Settings) (now : Time) :
    List String → WebhookGateway → WebhookGateway × List GatewayEffect
  | [], w => (w, [])
  | taskID :: rest, w =>
    if (w.async.lookup taskID).all fun lastBeat => decide (now - lastBeat ≤ settings.leaseTTL) then
      reapStaleAsync settings now rest w
    else
      match w.inflight.lookup taskID with
      | none => reapStaleAsync settings now rest { w with async := w.async.erase taskID }
      | some entry =>
        let (w, effects) := w.dropDelivery taskID entry false
        let (w, more) := reapStaleAsync settings now rest w
        (w, effects ++ more)

/-- The lease extensions of a tick, and the sweep over silent endpoints that follows them. -/
def tickWork (w : WebhookGateway) (turn : GatewayTurn) : List WebhookWork :=
  (turn.order.visit w.inflight).map .extendLease ++ [.reapStale]

/-- Converge, re-announce, extend the leases and sweep. -/
def tick (settings : Settings) (w : WebhookGateway) (turn : GatewayTurn) : WebhookGateway × List GatewayEffect :=
  let (w, effects) := w.syncBreakerCapacity settings turn
  ({ w with turn := w.tickWork turn }, effects ++ w.register turn.order)

/-- The first part of a turn: everything up to its first broker call. -/
def receive (settings : Settings) (w : WebhookGateway) (turn : GatewayTurn) :
    GatewayMessage → WebhookGateway × List GatewayEffect
  | .postStart => (w, w.register turn.order)
  | .registerTick => w.tick settings turn
  | .updateRegistration worker => w.apply turn worker
  | .drainSession => (w.drain turn, [])
  | .executeTask task leaseID _ => w.deliver turn task leaseID
  | .executeBatch tasks leaseID _ _ => w.deliverBatch turn tasks leaseID
  | .webhookDelivery taskID answer cause => w.complete settings turn taskID answer cause
  | .webhookBatchDelivery leaseID outcomes transportError cause =>
    w.completeBatch settings turn leaseID outcomes transportError cause
  | .leaseHeartbeat taskID leaseID => (w.heartbeatAsync taskID leaseID, [])
  | .leaseResult taskID leaseID outcome errorMsg => (w.resultAsync taskID leaseID outcome errorMsg, [])
  | .cancelActive taskID => w.cancelActive taskID
  | .deferredCompletion queue taskID success => (w, w.reportCompletion queue taskID success)
  | .result .. | .batchResult .. | .heartbeat _ | .progress .. | .credit _ => (w, [])

/-- The broker call of a piece of work, if it makes one. -/
def call (settings : Settings) (turn : GatewayTurn) (w : WebhookGateway) :
    WebhookWork → Option Call
  | .release taskID leaseID _ => some (.release taskID leaseID)
  | .resolve taskID result _ =>
    (w.inflight.lookup taskID).map fun entry => (applyOutcome turn.now turn.delay entry result).1
  | .member taskID accepted result _ =>
    if accepted then none
    else (w.inflight.lookup taskID).map fun entry =>
      (applyOutcome turn.now turn.delay entry result).1
  | .extendLease taskID =>
    if (w.async.lookup taskID).isSome then none
    else (w.inflight.lookup taskID).map fun entry =>
      .extendLease taskID entry.leaseID settings.leaseTTL
  | .extendAsync taskID =>
    (w.inflight.lookup taskID).map fun entry =>
      .extendLease taskID entry.leaseID settings.leaseTTL
  | .reapStale => none

/-- A synchronous delivery whose lease went to another one: its request is aborted. -/
def dropLost (w : WebhookGateway) (taskID : String) (entry : InflightTask) : WebhookGateway × List GatewayEffect :=
  let (w, aborted) := w.abortRequest taskID
  let (w, effects) := w.dropDelivery taskID entry false
  (w, aborted ++ effects)

/-- What a piece of work does with the broker's answer. -/
def finish (settings : Settings) (turn : GatewayTurn) (w : WebhookGateway) (reply : Reply) :
    WebhookWork → WebhookGateway × List GatewayEffect
  | .release _ _ open_ => (w, open_.toList.map .abort)
  | .resolve taskID result cause =>
    match w.inflight.lookup taskID with
    | none => (w, [])
    | some entry => w.resolveDelivery turn entry taskID result cause reply
  | .member taskID accepted result cause =>
    match w.inflight.lookup taskID with
    | none => (w, [])
    | some entry =>
      if accepted then
        (w.acceptAsync turn taskID, [.applied taskID entry.leaseID (some cause)])
      else w.resolveDelivery turn entry taskID result (some cause) reply
  | .extendLease taskID =>
    match w.inflight.lookup taskID with
    | none => (w, [])
    | some entry =>
      if (w.async.lookup taskID).isNone ∧ reply = .error .leaseLost then w.dropLost taskID entry
      else (w, [])
  | .extendAsync taskID =>
    match w.inflight.lookup taskID with
    | none => (w, [])
    | some entry =>
      match reply with
      | .ok => ({ w with async := w.async.insert taskID turn.now }, [])
      | .error .leaseLost => w.dropDelivery taskID entry true
      | _ => (w, [])
  | .reapStale => reapStaleAsync settings turn.now (turn.order.visit w.async) w

end WebhookGateway

end Conveyor
