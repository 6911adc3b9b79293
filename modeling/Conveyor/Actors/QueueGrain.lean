import Conveyor.Actors.Message

/-!
# The queue grain

The per-queue dispatcher: it leases due tasks while gateways have credits and hands them out by
smooth weighted round-robin. A turn is a function of the grain's state, the message, and what the
turn meets outside the grain: the clock, a new id, the tokens of the rate limiter, the gateways that
are unreachable, and whether a piped call starts. Broker calls run off the turn and come back as
messages, so a turn only emits them. Counters, metrics and logging are left out.
-/

namespace Conveyor

open Lib

/-- One registered gateway and its remaining dispatch credits, in 32-bit arithmetic. -/
structure GatewayCredits where
  name : String
  capacity : Int32
  credits : Int32
  weight : Int32
  currentWeight : Int32 := 0
  batchTypes : List String := []
  deriving DecidableEq

/-- The dispatcher of one queue. -/
structure QueueGrain where
  queue : String
  paused : Bool := false
  leasing : Bool := false
  gateways : List GatewayCredits := []
  concurrencyLimit : Int := 0
  activeByKey : GoMap String Int := ∅
  inFlightKey : GoMap String String := ∅

/-- What a turn of the grain meets outside it. `unreachable` says which of its sends fail. -/
structure GrainTurn where
  now : Time
  newID : String := ""
  tokens : Option Int := none
  unreachable : Nat → Bool := fun _ => false
  pipeStarts : Bool := true
  persisted : Bool := true

/-- What a turn of the grain does outside it. -/
inductive GrainEffect where
  | lease (limit : Int) (leaseID : String) (expiresAt : Time)
  | leaseGroup (group type : String) (limit : Int) (leaseID : String) (expiresAt : Time)
  | release (leaseID : String) (tasks : List TaskEnvelope)
  | executeTask (gateway : String) (task : TaskEnvelope) (leaseID : String) (expiresAt : Time)
  | executeBatch (gateway : String) (tasks : List TaskEnvelope) (leaseID : String)
      (expiresAt : Time) (group : String)
  | cancelActive (gateway taskID : String)
  | setPaused (paused : Bool)

namespace QueueGrain

/-- A grain as it activates: the persisted pause flag and concurrency override, all else empty. -/
def activate (queue : String) (paused : Bool) (override : Option Int) : QueueGrain :=
  { queue := queue
    paused := paused
    concurrencyLimit := (override.filter fun maxActive => decide (maxActive ≥ 1)).getD 0 }

/-- Replace the first gateway of a name. -/
def updateGateway (name : String) (f : GatewayCredits → GatewayCredits) :
    List GatewayCredits → List GatewayCredits
  | [] => []
  | gateway :: rest =>
    if gateway.name = name then f gateway :: rest else gateway :: updateGateway name f rest

/-- Grant credits to a gateway up to its capacity. -/
def refill (n : Int32) (gateway : GatewayCredits) : GatewayCredits :=
  { gateway with credits := min (gateway.credits + n) gateway.capacity }

/-- Free the concurrency slot a finished task held. -/
def releaseConcurrencyKey (x : QueueGrain) (taskID : String) : QueueGrain :=
  match x.inFlightKey.lookup taskID with
  | none => x
  | some key =>
    let left := (x.activeByKey.lookup key).getD 0 - 1
    { x with
      inFlightKey := x.inFlightKey.erase taskID
      activeByKey := if left ≤ 0 then x.activeByKey.erase key else x.activeByKey.insert key left }

/-- A completion report refills the reporting gateway and frees the task's slot. -/
def recordCompletion (x : QueueGrain) (taskID gatewayName : String) : QueueGrain :=
  releaseConcurrencyKey { x with gateways := updateGateway gatewayName (refill 1) x.gateways } taskID

/-- A batch completion refills the one credit the batch consumed. -/
def recordBatchCompletion (x : QueueGrain) (gatewayName : String) : QueueGrain :=
  { x with gateways := updateGateway gatewayName (refill 1) x.gateways }

/-- The gateway after a re-registration: a shrink clamps the credits, a growth grants the delta. -/
def reregister (capacity weight : Int32) (batchTypes : List String) (gateway : GatewayCredits) : GatewayCredits :=
  { gateway with
    capacity := capacity
    weight := weight
    batchTypes := batchTypes
    credits :=
      if capacity < gateway.capacity then min gateway.credits capacity
      else if gateway.capacity < capacity then
        min (gateway.credits + capacity - gateway.capacity) capacity
      else gateway.credits }

/-- Upsert a gateway; a new one is granted credits equal to its capacity. -/
def registerGateway (x : QueueGrain) (name : String) (capacity weight : Int32)
    (batchTypes : List String) : QueueGrain :=
  let weight := max weight 1
  if x.gateways.any (·.name == name) then
    { x with gateways := updateGateway name (reregister capacity weight batchTypes) x.gateways }
  else
    { x with
      gateways := x.gateways ++
        [{ name := name, capacity := capacity, credits := capacity, weight := weight, batchTypes := batchTypes }] }

/-- Grant returned credits to a registered gateway, capped at its capacity. -/
def addCredits (x : QueueGrain) (name : String) (credits : Int32) : QueueGrain :=
  { x with gateways := updateGateway name (refill credits) x.gateways }

/-- Forget a gateway and its credits. -/
def removeGateway (x : QueueGrain) (name : String) : QueueGrain :=
  { x with gateways := x.gateways.eraseP (·.name == name) }

/-- The credits across the registered gateways. -/
def totalCredits (x : QueueGrain) : Int := (x.gateways.map fun gateway => gateway.credits.toInt).sum

/-- Start a lease cycle when the grain is unpaused, idle, and has credits and tokens. -/
def maybeLease (settings : Settings) (turn : GrainTurn) (x : QueueGrain) : QueueGrain × List GrainEffect :=
  let credits := x.totalCredits
  let limit := min credits settings.leaseBatchMax
  let limit := match turn.tokens with
    | some available => min limit available
    | none => limit
  if x.paused || x.leasing || credits == 0 || turn.tokens.any (· ≤ 0) then (x, [])
  else if turn.pipeStarts then
    ({ x with leasing := true }, [.lease limit turn.newID (turn.now + settings.leaseTTL)])
  else ({ x with leasing := false }, [])

/-- Hand leased tasks that were not dispatched to the release path. -/
def releaseLeased (turn : GrainTurn) (leaseID : String) (tasks : List TaskEnvelope) : List GrainEffect :=
  if turn.pipeStarts then [.release leaseID tasks] else []

/-- The index of the eligible gateway with the highest accumulator once its weight is added, the first one among
equals. -/
def highest (eligible : GatewayCredits → Bool) :
    List GatewayCredits → Nat → Option (Nat × Int32) → Option Nat
  | [], _, best => best.map Prod.fst
  | gateway :: rest, index, best =>
    let raised := gateway.currentWeight + gateway.weight
    if eligible gateway && best.all (fun b => decide (b.2 < raised)) then
      highest eligible rest (index + 1) (some (index, raised))
    else highest eligible rest (index + 1) best

/-- One step of smooth weighted round-robin over the eligible gateways. -/
def selectWeightedGateway (eligible : GatewayCredits → Bool) (gateways : List GatewayCredits) :
    List GatewayCredits × Option Nat :=
  let raised := gateways.map fun gateway =>
    if eligible gateway then { gateway with currentWeight := gateway.currentWeight + gateway.weight }
    else gateway
  let total := (gateways.filter eligible).foldl (fun total gateway => total + gateway.weight) 0
  match highest eligible gateways 0 none with
  | none => (raised, none)
  | some index =>
    (raised.modify index fun gateway =>
      { gateway with currentWeight := gateway.currentWeight - total }, some index)

/-- A gateway with credits. -/
def hasCredit (gateway : GatewayCredits) : Bool := decide (gateway.credits > 0)

/-- A gateway with credits that takes batches of the type. -/
def batchCapable (type : String) (gateway : GatewayCredits) : Bool :=
  hasCredit gateway && gateway.batchTypes.contains type

/-- Pick a gateway with credits, the round-robin accumulators moving along. -/
def pickGateway (x : QueueGrain) : QueueGrain × Option Nat :=
  let (gateways, picked) := selectWeightedGateway hasCredit x.gateways
  ({ x with gateways := gateways }, picked)

/-- Pick a batch-capable gateway for a task type. -/
def pickBatchGateway (x : QueueGrain) (type : String) : QueueGrain × Option Nat :=
  let (gateways, picked) := selectWeightedGateway (batchCapable type) x.gateways
  ({ x with gateways := gateways }, picked)

/-- Spend one credit of the gateway at an index. -/
def spendCredit (x : QueueGrain) (index : Nat) : QueueGrain :=
  { x with
    gateways := x.gateways.modify index fun gateway => { gateway with credits := gateway.credits - 1 } }

/-- Whether the task already holds a slot of its key. -/
def holdsSlot (x : QueueGrain) (taskID key : String) : Bool :=
  key != "" && x.inFlightKey.lookup taskID == some key

/-- Whether the key is full and the task has no slot of it. -/
def saturated (x : QueueGrain) (taskID key : String) : Bool :=
  key != "" && !x.holdsSlot taskID key && decide (x.concurrencyLimit > 0) &&
    decide ((x.activeByKey.lookup key).getD 0 ≥ x.concurrencyLimit)

/-- Reserve a slot of the task's key; a task that holds one already keeps it. -/
def reserveSlot (x : QueueGrain) (taskID key : String) : QueueGrain :=
  if key = "" then x
  else
    { x with
      activeByKey :=
        if x.holdsSlot taskID key then x.activeByKey
        else x.activeByKey.insert key ((x.activeByKey.lookup key).getD 0 + 1)
      inFlightKey := x.inFlightKey.insert taskID key }

/-- Dispatch one leased task, or hold it back: its key is saturated, no gateway has a credit, or the
chosen gateway is unreachable and is dropped. -/
def dispatchTask (turn : GrainTurn) (leaseID : String) (expiresAt : Time) (index : Nat)
    (task : TaskEnvelope) (x : QueueGrain) : QueueGrain × Option GrainEffect :=
  let key := task.options.concurrencyKey
  if x.saturated task.id key then (x, none)
  else
    let (picking, picked) := x.pickGateway
    match picked with
    | none => (picking, none)
    | some i =>
      let name := (picking.gateways[i]?.map GatewayCredits.name).getD ""
      if turn.unreachable index then (picking.removeGateway name, none)
      else
        ((picking.spendCredit i).reserveSlot task.id key, some (.executeTask name task leaseID expiresAt))

/-- Dispatch the tasks of a lease cycle in order, with the tasks held back. -/
def dispatchTasks (turn : GrainTurn) (leaseID : String) (expiresAt : Time) :
    Nat → List TaskEnvelope → QueueGrain → QueueGrain × List GrainEffect × List TaskEnvelope
  | _, [], x => (x, [], [])
  | index, task :: rest, x =>
    let (x, sent) := dispatchTask turn leaseID expiresAt index task x
    let (x, effects, held) := dispatchTasks turn leaseID expiresAt (index + 1) rest x
    match sent with
    | some effect => (x, effect :: effects, held)
    | none => (x, effects, task :: held)

/-- Distribute a completed lease cycle, release what was held back, and start another cycle when
something was dispatched. -/
def finishLeaseCycle (settings : Settings) (turn : GrainTurn) (leaseID : String) (expiresAt : Time)
    (error : String) (tasks : List TaskEnvelope) (x : QueueGrain) : QueueGrain × List GrainEffect :=
  let x := { x with leasing := false }
  if error ≠ "" then (x, [])
  else if tasks = [] then (x, [])
  else if x.paused then (x, releaseLeased turn leaseID tasks)
  else
    let (x, effects, held) := dispatchTasks turn leaseID expiresAt 0 tasks x
    let released := if held = [] then [] else releaseLeased turn leaseID held
    if effects = [] then (x, released)
    else
      let (x, leases) := x.maybeLease settings turn
      (x, effects ++ released ++ leases)

/-- Start leasing a due aggregation group when a gateway can take its batch. -/
def fireGroup (settings : Settings) (turn : GrainTurn) (group type : String) (limit : Int32)
    (x : QueueGrain) : QueueGrain × List GrainEffect :=
  if x.paused then (x, [])
  else
    let (x, picked) := x.pickBatchGateway type
    if picked.isNone || !turn.pipeStarts then (x, [])
    else
      let size := if limit ≤ 0 then settings.groupMaxSize else limit.toInt
      (x, [.leaseGroup group type size turn.newID (turn.now + settings.leaseTTL)])

/-- Dispatch a leased group as one batch, or release it. -/
def finishGroupLease (turn : GrainTurn) (leaseID : String) (expiresAt : Time) (group type error : String)
    (tasks : List TaskEnvelope) (x : QueueGrain) : QueueGrain × List GrainEffect :=
  if error ≠ "" then (x, [])
  else if tasks = [] then (x, [])
  else
    let (x, picked) := x.pickBatchGateway type
    match picked with
    | none => (x, releaseLeased turn leaseID tasks)
    | some i =>
      let name := (x.gateways[i]?.map GatewayCredits.name).getD ""
      if x.paused then (x, releaseLeased turn leaseID tasks)
      else if turn.unreachable 0 then (x.removeGateway name, releaseLeased turn leaseID tasks)
      else (x.spendCredit i, [.executeBatch name tasks leaseID expiresAt group])

/-- Forward an admin cancel to every registered gateway that can be reached. -/
def broadcastCancel (turn : GrainTurn) (taskID : String) (x : QueueGrain) : List GrainEffect :=
  (x.gateways.zipIdx.filter fun entry => !turn.unreachable entry.2).map
    fun entry => .cancelActive entry.1.name taskID

/-- Update the per-key limit; a value below one leaves the keys unbounded. -/
def applyConcurrencyLimitChange (x : QueueGrain) (maxActive : Int32) : QueueGrain :=
  { x with concurrencyLimit := if maxActive ≥ 1 then maxActive.toInt else 0 }

/-- Persist and apply the pause flag. -/
def setPaused (turn : GrainTurn) (paused : Bool) (x : QueueGrain) : QueueGrain × List GrainEffect :=
  if turn.persisted then ({ x with paused := paused }, [.setPaused paused]) else (x, [])

/-- One turn of the grain. -/
def receive (settings : Settings) (turn : GrainTurn) (x : QueueGrain) :
    GrainMessage → QueueGrain × List GrainEffect
  | .taskEnqueued | .tasksAvailable | .rateLimitChanged => x.maybeLease settings turn
  | .taskCompleted taskID _ gatewayName =>
    (x.recordCompletion taskID gatewayName).maybeLease settings turn
  | .batchCompleted gatewayName _ _ => (x.recordBatchCompletion gatewayName).maybeLease settings turn
  | .fireGroup group type limit => x.fireGroup settings turn group type limit
  | .groupLeaseCompleted leaseID expiresAt group type error tasks =>
    x.finishGroupLease turn leaseID expiresAt group type error tasks
  | .registerGateway name capacity weight batchTypes =>
    (x.registerGateway name capacity weight batchTypes).maybeLease settings turn
  | .unregisterGateway name => (x.removeGateway name, [])
  | .gatewayCredit name credits => (x.addCredits name credits).maybeLease settings turn
  | .leaseCycleCompleted leaseID expiresAt error tasks =>
    x.finishLeaseCycle settings turn leaseID expiresAt error tasks
  | .leasedTasksReleased _ _ => (x, [])
  | .cancelActive taskID => (x, x.broadcastCancel turn taskID)
  | .drainQueue => x.setPaused turn true
  | .resumeQueue =>
    let (x, effects) := x.setPaused turn false
    let (x, leases) := x.maybeLease settings turn
    (x, effects ++ leases)
  | .concurrencyLimitChanged maxActive =>
    (x.applyConcurrencyLimitChange maxActive).maybeLease settings turn
  | .statusFailure => ({ x with leasing := false }, [])

end QueueGrain

end Conveyor
