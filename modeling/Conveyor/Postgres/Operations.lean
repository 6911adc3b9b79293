import Conveyor.Broker.Call
import Conveyor.Postgres.Database

/-!
# The operations of the Postgres broker

Each operation is a program over a session: it reads, issues its statements in the source's order,
and maps a rejected statement to the error it returns. Enqueueing with a unique key or edges,
enqueueing a batch and resolving dependents run in a transaction; the other operations commit each
statement on its own. No event sink is wired.
-/

namespace Conveyor.Postgres

open Lib SessionM

/-- What an operation of the broker fails with: a sentinel error, a wrapped database error with its
context, or a batch error that names the member. -/
inductive PgError where
  | broker (cause : BrokerError)
  | postgres (context : String)
  | batch (index : Nat) (taskID : String) (cause : PgError)

/-- A program of the broker. -/
abbrev Sql := SessionM Database Query PgError

/-- The iteration orders of the two map loops of an enqueue. -/
structure EnqueueOrder where
  policies : MapOrder String := .listed
  edges : MapOrder String := .listed

/-- A task's insert values, computed before any statement runs. There is no row for a value that does not
fit its column. -/
structure PreparedEnqueue where
  task : TaskEnvelope
  state : TaskState
  uniqueKey : Option String
  edges : List TaskDependency
  buildArguments : TaskState → Option Row
  now : Time

/-- The column value of a policy; an unspecified one blocks. -/
def policyColumn : DependencyFailurePolicy → Int16
  | .unspecified | .block => 1
  | .cascadeCancel => 2
  | .continue_ => 3
  | .unrecognized value => value.toInt16

/-- The column value of a priority. -/
def priorityColumn (priority : Int32) : Option Int16 :=
  if priority.toInt16.toInt32 = priority then some priority.toInt16 else none

/-- Derive a task's insert values. -/
def prepareEnqueue (task : TaskEnvelope) (now : Time) : Except PgError PreparedEnqueue :=
  let options := task.options
  let processAt := options.processAt.getD now
  let group := options.group
  if group ≠ "" ∧ processAt > now then .error (.broker .groupedSchedule)
  else
    let uniqueKey := if options.uniqueKey = "" then none else some options.uniqueKey
    .ok
      { task := task
        state :=
          if group ≠ "" then .aggregating else if processAt > now then .scheduled else .pending
        uniqueKey := uniqueKey
        edges := options.dependsOn
        buildArguments := fun state => (priorityColumn options.priority).map fun priority =>
          { queue := task.queue
            type := task.type
            state := state
            priority := priority
            payload := task
            uniqueKey := uniqueKey
            uniqueExpiresAt := uniqueKey.bind fun _ => options.uniqueTtl.map fun ttl => now + ttl
            processAt := processAt
            maxRetry := options.maxRetry
            retried := task.retried
            lastError := task.lastError
            retention := options.retention.getD 0
            enqueuedAt := task.enqueuedAt.getD now
            groupKey := group
            expiresAt := options.expiresAt }
        now := now }

namespace Database

/-- The declared policies by dependency id; a later edge on the same task replaces an earlier one. -/
def declaredPolicies (taskID : String) (edges : List TaskDependency) : GoMap String Int16 :=
  edges.foldl
    (fun policies edge =>
      if edge.taskId = "" ∨ edge.taskId = taskID then policies
      else policies.insert edge.taskId (policyColumn edge.onFailure)) ∅

/-- The loop of `resolveInitialDeps` over the declared policies, with the edges kept so far. -/
def keepUnsatisfied (db : Database) (policies : GoMap String Int16) :
    List String → GoMap String Int16 → GoMap String Int16 × Bool
  | [], deps => (deps, false)
  | policyID :: rest, deps =>
    let policy := (policies.lookup policyID).getD 0
    match (db.tasks.lookup policyID).map Row.state with
    | none => keepUnsatisfied db policies rest (deps.insert policyID policy)
    | some .completed => keepUnsatisfied db policies rest deps
    | some .archived | some .canceled =>
      if policy = 3 then keepUnsatisfied db policies rest deps
      else if policy = 2 then (∅, true)
      else keepUnsatisfied db policies rest (deps.insert policyID policy)
    | some _ => keepUnsatisfied db policies rest (deps.insert policyID policy)

/-- The unsatisfied dependencies of a task being enqueued, and whether a failed one cancels it. -/
def resolveInitialDeps (db : Database) (order : MapOrder String) (taskID : String)
    (edges : List TaskDependency) : GoMap String Int16 × Bool :=
  let policies := declaredPolicies taskID edges
  keepUnsatisfied db policies (order.visit policies) ∅

end Database

/-- Stamp a task that was committed canceled. -/
def stampIfCanceled (state : TaskState) (taskID : String) (now : Time) : Sql Unit :=
  if state = .canceled then
    issue (.postgres "postgres: stamp canceled task") (.stampCanceled taskID now)
  else pure ()

/-- Free a lapsed claim on the task's unique key, if it has one. -/
def releaseLapsed (uniqueKey : Option String) (now : Time) : Sql Unit :=
  match uniqueKey with
  | some key =>
    issue (.postgres "postgres: release lapsed unique claim") (.releaseLapsedUnique key now)
  | none => pure ()

/-- Insert a task row. A value that does not fit its column fails before the statement is sent. -/
def insertTask (rejected : PgError) (id : String) : Option Row → Sql Unit
  | some row => issue rejected (.insertTask id row)
  | none => throw (.postgres "postgres: insert task")

/-- Commit one task inside the caller's transaction. A row that already exists is left alone with
its edges. -/
def enqueueOneTx (order : EnqueueOrder) (prepared : PreparedEnqueue) : Sql Unit := do
  let id := prepared.task.id
  releaseLapsed prepared.uniqueKey prepared.now
  let resolved ← read fun db => db.resolveInitialDeps order.policies id prepared.edges
  let deps := resolved.1
  let state :=
    if resolved.2 then .canceled else if deps.keys ≠ [] then .blocked else prepared.state
  let conflict ← read fun db => decide (id ∈ db.tasks)
  insertTask (.broker .duplicateTask) id (prepared.buildArguments state)
  if conflict then pure ()
  else do
    stampIfCanceled state id prepared.now
    (order.edges.visit deps).forM fun depID =>
      issue (.postgres "postgres: insert dependency edge")
        (.insertEdge ⟨id, depID, (deps.lookup depID).getD 0⟩)

/-- Lift a computation that issues no statement. -/
def ofExcept {A : Type} (result : Except PgError A) : Sql A :=
  match result with
  | .ok a => pure a
  | .error e => throw e

/-- `Enqueue`: a task without unique key and edges is one statement. -/
def enqueue (now : Time) (order : EnqueueOrder) (task : TaskEnvelope) : Sql Unit := do
  let prepared ← ofExcept (prepareEnqueue task now)
  if prepared.uniqueKey = none ∧ prepared.edges = [] then
    insertTask (.postgres "postgres: insert task") task.id (prepared.buildArguments prepared.state)
  else transaction (enqueueOneTx order prepared)

/-- Prepare every task of a batch, naming the first one that is invalid. -/
def prepareBatch (now : Time) : Nat → List TaskEnvelope → Except PgError (List PreparedEnqueue)
  | _, [] => .ok []
  | index, task :: rest =>
    match prepareEnqueue task now with
    | .error e => .error (.batch index task.id e)
    | .ok prepared => (prepareBatch now (index + 1) rest).map (prepared :: ·)

/-- Commit the prepared tasks of a batch in order. -/
def enqueueAllTx (order : Nat → EnqueueOrder) : Nat → List PreparedEnqueue → Sql Unit
  | _, [] => pure ()
  | index, prepared :: rest => do
    mapError (.batch index prepared.task.id) (enqueueOneTx (order index) prepared)
    enqueueAllTx order (index + 1) rest

/-- `EnqueueBatch`: every task or none. -/
def enqueueBatch (now : Time) (order : Nat → EnqueueOrder) (tasks : List TaskEnvelope) : Sql Unit :=
  if tasks = [] then pure ()
  else do
    let prepared ← ofExcept (prepareBatch now 0 tasks)
    transaction (enqueueAllTx order 0 prepared)

/-- The envelope of a claimed row. -/
def scanEnvelope (row : Row) : TaskEnvelope :=
  { row.payload with retried := row.retried, lastError := row.lastError }

/-- The envelopes of the given rows, in the given order. -/
def Database.scanEnvelopes (db : Database) (ids : List String) : List TaskEnvelope :=
  ids.filterMap fun id => (db.tasks.lookup id).map scanEnvelope

/-- `Lease`: claim up to `limit` due tasks. -/
def lease (now : Time) (scan : Scan) (queue : String) (limit : Int) (ttl : Duration)
    (leaseID : String) : Sql (List TaskEnvelope) :=
  if limit ≤ 0 then pure []
  else do
    let leased ← read fun db => db.scanEnvelopes (db.dueRows scan queue limit now)
    issue (.postgres "postgres: lease") (.lease queue limit leaseID now (now + ttl) scan)
    pure leased

/-- `LeaseGroup`: claim a group's aggregating members as one batch. -/
def leaseGroup (now : Time) (scan : Scan) (queue group : String) (limit : Int) (ttl : Duration)
    (leaseID : String) : Sql (List TaskEnvelope) :=
  if limit ≤ 0 then pure []
  else do
    let leased ← read fun db => db.scanEnvelopes (db.groupRows scan queue group limit)
    issue (.postgres "postgres: lease group")
      (.leaseGroup queue group limit leaseID now (now + ttl) scan)
    pure leased

/-- Issue a statement that must match a row, with the error for a miss. -/
def mutateScoped (context : String) (query : Query) (onMiss : Sql Unit) : Sql Unit := do
  let affected ← read query.affected
  issue (.postgres context) query
  if affected = [] then onMiss else pure ()

/-- The miss of a lease-scoped statement. -/
def leaseLost : Sql Unit := throw (.broker .leaseLost)

/-- Separate a missing task from one in an ineligible state. -/
def explainMiss (taskID : String) : Sql Unit := do
  let found ← read fun db => (db.tasks.lookup taskID).isSome
  if found then throw (.broker .invalidState) else throw (.broker .taskNotFound)

def extendLease (now : Time) (taskID leaseID : String) (ttl : Duration) : Sql Unit :=
  mutateScoped "postgres: lease-scoped update" (.extendLease taskID leaseID (now + ttl)) leaseLost

def setProgress (taskID leaseID : String) (percent : UInt32) (message : String) : Sql Unit :=
  mutateScoped "postgres: lease-scoped update"
    (.setProgress taskID leaseID
      (if percent > maxProgressPercent then maxProgressPercent else percent) message) leaseLost

def ack (now : Time) (taskID leaseID : String) : Sql Unit :=
  mutateScoped "postgres: ack" (.ack taskID leaseID now) leaseLost

/-- `AckBatch`: the ids whose lease was still held. -/
def ackBatch (now : Time) (items : List AckItem) : Sql (List String) :=
  if items = [] then pure []
  else do
    let acked ← read (Query.ackBatch now items).affected
    issue (.postgres "postgres: ack batch") (.ackBatch now items)
    pure acked

def fail (taskID leaseID errMsg : String) (processAt : Time) : Sql Unit :=
  mutateScoped "postgres: fail" (.fail taskID leaseID errMsg processAt) leaseLost

def release (now : Time) (taskID leaseID : String) : Sql Unit :=
  mutateScoped "postgres: release" (.release taskID leaseID now) leaseLost

/-- `Archive`: under the caller's lease, or unconditionally when no lease is given. -/
def archive (now : Time) (taskID leaseID errMsg : String) : Sql Unit :=
  if leaseID ≠ "" then
    mutateScoped "postgres: archive" (.archiveLeased taskID leaseID errMsg now) leaseLost
  else mutateScoped "postgres: archive" (.archiveAny taskID errMsg now) (explainMiss taskID)

/-- The distinct queues of the given rows that satisfy a condition. -/
def Database.queuesOf (db : Database) (ids : List String) (cond : Row → Bool) : GoSet String :=
  ids.foldl
    (fun queues id =>
      match (db.tasks.lookup id).filter cond with
      | some row => queues.insert row.queue ()
      | none => queues) ∅

/-- Issue a statement that moves rows in bulk and report the queues of those that satisfy the
condition afterwards. -/
def sweep (context : String) (queues : MapOrder String) (query : Query) (cond : Row → Bool) :
    Sql (List String) := do
  let affected ← read query.affected
  issue (.postgres context) query
  let woken ← read fun db => db.queuesOf affected cond
  pure (queues.visit woken)

/-- `ReapExpiredLeases`: the queues with a task to retry. -/
def reapExpiredLeases (now : Time) (scan : Scan) (queues : MapOrder String) (limit : Int) : Sql (List String) :=
  if limit ≤ 0 then pure []
  else sweep "postgres: reap expired leases" queues (.reap limit now leaseExpiredMessage scan)
    (·.state == .retry)

/-- `PromoteScheduled`: the queues with a task that became due. -/
def promoteScheduled (now : Time) (scan : Scan) (queues : MapOrder String) (limit : Int) : Sql (List String) :=
  if limit ≤ 0 then pure []
  else sweep "postgres: promote scheduled" queues (.promote limit now scan) fun _ => true

/-- `ArchiveExpired`: how many expired tasks were dead-lettered. -/
def archiveExpired (now : Time) (scan : Scan) (limit : Int) : Sql Nat :=
  if limit ≤ 0 then pure 0
  else do
    let affected ← read (Query.archiveExpired now limit taskExpiredMessage scan).affected
    issue (.postgres "postgres: archive expired tasks")
      (.archiveExpired now limit taskExpiredMessage scan)
    pure affected.length

/-- Cancel a blocked dependent whose dependency failed, and drop every edge it held. -/
def cascadeCancel (dependentID : String) (now : Time) : Sql Unit := do
  issue (.postgres "postgres: cascade-cancel dependent")
    (.cascadeCancel dependentID now cascadeCanceledMessage)
  issue (.postgres "postgres: drop canceled dependent edges") (.dropDependentEdges dependentID)

/-- Promote a blocked dependent once it holds no more edges, returning its queue. -/
def promoteDependent (dependentID : String) (now : Time) : Sql (Option String) := do
  let locked ← read fun db => db.stateIs dependentID (· == .blocked)
  if locked then do
    let affected ← read (Query.promoteDependent dependentID now).affected
    issue (.postgres "postgres: promote dependent") (.promoteDependent dependentID now)
    read fun db => affected.head?.bind fun id => (db.tasks.lookup id).map Row.queue
  else pure none

/-- The edges that wait on a dependency, ordered by dependent id. -/
def Database.edgesWaitingOn (db : Database) (dependencyID : String) : List Edge :=
  sortFunc (fun a b => compareBy a.dependentID b.dependentID)
    (db.deps.filter fun edge => edge.dependencyID == dependencyID)

/-- Apply the policies of the edges of a finished task. A blocking edge on a failed task stays, a
cascading one cancels its dependent, every other one is satisfied. Returns the dependents of the
satisfied edges and the canceled ones. -/
def applyPolicies (failed : Bool) (now : Time) : List Edge → Sql (List String × List String)
  | [] => pure ([], [])
  | edge :: rest =>
    if failed && edge.onFailure == 1 then applyPolicies failed now rest
    else if failed && edge.onFailure == 2 then do
      cascadeCancel edge.dependentID now
      let outcome ← applyPolicies failed now rest
      pure (outcome.1, edge.dependentID :: outcome.2)
    else do
      let outcome ← applyPolicies failed now rest
      pure (edge.dependentID :: outcome.1, outcome.2)

/-- Promote each of the given dependents that is ready, collecting the woken queues. -/
def promoteEach (now : Time) : List String → GoSet String → Sql (GoSet String)
  | [], queues => pure queues
  | dependentID :: rest, queues => do
    let queue ← promoteDependent dependentID now
    promoteEach now rest (match queue with
      | some queue => queues.insert queue ()
      | none => queues)

/-- One round of `resolveWithin`: apply the edges that wait on a finished task. Returns the
dependents that join the worklist and the queues woken so far. -/
def resolveFinished (now : Time) (finishedID : String) (queues : GoSet String) :
    Sql (List String × GoSet String) := do
  let state ← read fun db => ((db.tasks.lookup finishedID).map Row.state).getD .unspecified
  if terminal state then do
    let edges ← read fun db => db.edgesWaitingOn finishedID
    let outcome ← applyPolicies (state != .completed) now edges
    if outcome.1 = [] then pure (outcome.2, queues)
    else do
      issue (.postgres "postgres: drop satisfied edges") (.dropSatisfiedEdges finishedID outcome.1)
      let queues ← promoteEach now outcome.1 queues
      pure (outcome.2, queues)
  else pure ([], queues)

/-- The worklist loop of `resolveWithin`, for at most `fuel` entries. -/
def drain (now : Time) : Nat → List String → List String → GoSet String → Sql (GoSet String)
  | 0, _, _, queues => pure queues
  | _ + 1, [], _, queues => pure queues
  | fuel + 1, finishedID :: worklist, seen, queues =>
    if finishedID ∈ seen then drain now fuel worklist seen queues
    else do
      let outcome ← resolveFinished now finishedID queues
      drain now fuel (worklist ++ outcome.1) (finishedID :: seen) outcome.2

/-- Drain the edges that point at each seed task. Every entry of the worklist is a seed or comes
from an edge, and the edges of a task are applied once, which bounds the loop. -/
def resolveWithin (now : Time) (seed : List String) : Sql (GoSet String) := do
  let fuel ← read fun db => seed.length + db.deps.length
  drain now fuel seed [] ∅

/-- `ResolveDependents`: reconcile the edges that wait on a terminal task. -/
def resolveDependents (now : Time) (queues : MapOrder String) (taskID : String) :
    Sql (List String) := do
  let hasDependents ← read fun db => db.hasDependents taskID
  if hasDependents then do
    let woken ← transaction (resolveWithin now [taskID])
    pure (queues.visit woken)
  else pure []

/-- The dependencies that are terminal and still carry edges, in the order a scan meets them. -/
def Database.readyDependencies (db : Database) (scan : Scan) (limit : Int) : List String :=
  let ready := (db.deps.map Edge.dependencyID).dedup.filter fun id => db.stateIs id terminal
  (scan.order.arrange ready).take limit.toNat

/-- `PromoteReadyDependents`: the sweep behind the inline resolution. -/
def promoteReadyDependents (now orphanNow : Time) (scan : Scan) (queues : MapOrder String)
    (limit : Int) : Sql (List String) :=
  if limit ≤ 0 then pure []
  else transaction do
    let seed ← read fun db => db.readyDependencies scan limit
    let woken ← resolveWithin now seed
    let orphans ← read (Query.promoteOrphanBlocked limit orphanNow scan).affected
    issue (.postgres "postgres: promote orphaned blocked tasks")
      (.promoteOrphanBlocked limit orphanNow scan)
    let promoted ← read fun db => db.queuesOf orphans fun _ => true
    pure (queues.visit (promoted.keys.foldl (fun woken queue => woken.insert queue ()) woken))

/-- Delete the rows a purge statement matches and count them. -/
def purge (context : String) (query : Query) : Sql Nat := do
  let affected ← read query.affected
  issue (.postgres context) query
  pure affected.length

/-- `PurgeTerminal`: free lapsed claims, drop stale edges, delete terminal rows past their
retention. A retention that is not positive keeps dead-lettered and canceled rows. -/
def purgeTerminal (now : Time) (scan : Scan) (archiveRetention : Duration) (limit : Int) : Sql Nat :=
  if limit ≤ 0 then pure 0
  else do
    issue (.postgres "postgres: release lapsed unique claims") (.releaseAllLapsed now)
    issue (.postgres "postgres: drop terminal dependent edges") .dropTerminalDependentEdges
    let completed ← purge "postgres: purge completed" (.purgeCompleted now limit scan)
    if archiveRetention ≤ 0 then pure completed
    else do
      let archived ← purge "postgres: purge archived"
        (.purgeArchived (now - archiveRetention) limit scan)
      pure (completed + archived)

def cancelTask (now : Time) (id : String) : Sql Unit :=
  mutateScoped "postgres: cancel task" (.cancelTask id now) (explainMiss id)

/-- `DeleteTask`: remove a task that is not active and that no waiting dependent needs. -/
def deleteTask (id : String) : Sql Unit := do
  let hasDependents ← read fun db => db.hasWaitingDependents id
  if hasDependents then throw (.broker .taskHasDependents)
  else do
    mutateScoped "postgres: delete task" (.deleteTask id) (explainMiss id)
    issue (.postgres "postgres: drop deleted task edges") (.dropDependentEdges id)

def runTaskNow (now : Time) (id : String) : Sql Unit :=
  mutateScoped "postgres: run task now" (.runTaskNow id now) (explainMiss id)

def rescheduleTask (now : Time) (id : String) (processAt : Time) : Sql Unit :=
  mutateScoped "postgres: reschedule task"
    (.reschedule id processAt (if processAt > now then .scheduled else .pending)) (explainMiss id)

def archiveTask (now : Time) (id : String) : Sql Unit :=
  mutateScoped "postgres: archive task" (.archiveWaiting id now) (explainMiss id)

/-- One operation of a run: the call, its clock readings, the rows its scans meet, and the orders of
its map loops. -/
structure Invocation where
  call : Call
  now : Time
  orphanNow : Time := now
  scan : Scan := {}
  enqueue : Nat → EnqueueOrder := fun _ => {}
  queues : MapOrder String := .listed

/-- The program of an operation. Queue settings live in tables of their own. -/
def Invocation.program (i : Invocation) : Sql Reply :=
  match i.call with
  | .enqueue task => (fun _ => .ok) <$> Postgres.enqueue i.now (i.enqueue 0) task
  | .enqueueBatch tasks => (fun _ => .ok) <$> enqueueBatch i.now i.enqueue tasks
  | .lease queue limit ttl leaseID => .leased <$> lease i.now i.scan queue limit ttl leaseID
  | .leaseGroup queue group limit ttl leaseID =>
    .leased <$> leaseGroup i.now i.scan queue group limit ttl leaseID
  | .extendLease taskID leaseID ttl => (fun _ => .ok) <$> extendLease i.now taskID leaseID ttl
  | .setProgress taskID leaseID percent message =>
    (fun _ => .ok) <$> setProgress taskID leaseID percent message
  | .ack taskID leaseID => (fun _ => .ok) <$> ack i.now taskID leaseID
  | .ackBatch items => .acked <$> ackBatch i.now items
  | .fail taskID leaseID errMsg processAt => (fun _ => .ok) <$> fail taskID leaseID errMsg processAt
  | .release taskID leaseID => (fun _ => .ok) <$> release i.now taskID leaseID
  | .archive taskID leaseID errMsg => (fun _ => .ok) <$> archive i.now taskID leaseID errMsg
  | .reapExpiredLeases limit => .queues <$> reapExpiredLeases i.now i.scan i.queues limit
  | .promoteScheduled limit => .queues <$> promoteScheduled i.now i.scan i.queues limit
  | .resolveDependents taskID => .queues <$> resolveDependents i.now i.queues taskID
  | .promoteReadyDependents limit =>
    .queues <$> promoteReadyDependents i.now i.orphanNow i.scan i.queues limit
  | .purgeTerminal archiveRetention limit =>
    .count <$> purgeTerminal i.now i.scan archiveRetention limit
  | .archiveExpired limit => .count <$> archiveExpired i.now i.scan limit
  | .cancelTask id => (fun _ => .ok) <$> cancelTask i.now id
  | .deleteTask id => (fun _ => .ok) <$> deleteTask id
  | .runTaskNow id => (fun _ => .ok) <$> runTaskNow i.now id
  | .rescheduleTask id processAt => (fun _ => .ok) <$> rescheduleTask i.now id processAt
  | .archiveTask id => (fun _ => .ok) <$> archiveTask i.now id
  | .setQueuePaused .. | .setQueueConcurrencyLimit .. | .deleteQueueConcurrencyLimit .. => pure .ok

/-- The session after a run of operations that starts on empty tables. -/
def run (invocations : List Invocation) : Session Database Query :=
  invocations.foldl (fun session i => (i.program session).2) { db := {} }

end Conveyor.Postgres
