import Conveyor.Broker.Lease
import Conveyor.Lib.Session

/-!
# The Postgres broker's database and its statements

Two tables: task rows by id and dependency edges. Every statement of the broker is one constructor
of `Query`, and `Query.statement` reads its SQL as an insertion, an update or a deletion of the
rows it matches. Null columns are `none`; a comparison with a null is never true.

A row whose unique key is not null and whose state is scheduled, pending, active or retry is in the
partial unique index. A statement is rejected exactly when it would leave two such rows with equal
keys.
-/

namespace Conveyor.Postgres

open Lib

/-- A row of `conveyor_tasks`; the payload column is the serialized envelope as committed. -/
structure Row where
  queue : String
  type : String
  state : TaskState
  priority : Int16
  payload : TaskEnvelope
  uniqueKey : Option String
  uniqueExpiresAt : Option Time
  processAt : Time
  maxRetry : Int32
  retried : Int32
  lastError : String
  retention : Duration
  enqueuedAt : Time
  groupKey : String
  expiresAt : Option Time
  leaseID : Option String := none
  leaseExpiresAt : Option Time := none
  startedAt : Option Time := none
  completedAt : Option Time := none
  progress : UInt32 := 0
  progressMessage : String := ""

/-- A row of `conveyor_task_deps`; the policy is a 16-bit column. -/
structure Edge where
  dependentID : String
  dependencyID : String
  onFailure : Int16
  deriving DecidableEq

/-- The content of the two tables. -/
structure Database where
  tasks : GoMap String Row := ∅
  deps : List Edge := []

/-- The rows a statement with a limit meets: the order it scans them in, and the rows that are
locked by another session and skipped. -/
structure Scan where
  order : MapOrder String := .listed
  locked : String → Bool := fun _ => false

/-- Compare a nullable column; nulls sort last. -/
def compareNullable (x y : Option Time) : Int :=
  match x, y with
  | some x, some y => compareBy x y
  | some _, none => -1
  | none, some _ => 1
  | none, none => 0

/-- The state a task would hold without dependencies. -/
def unblockedState (row : Row) (now : Time) : TaskState :=
  if row.groupKey ≠ "" then .aggregating else if row.processAt > now then .scheduled else .pending

/-- Whether the row is active under the lease. -/
def Row.activeUnder (row : Row) (leaseID : String) : Bool :=
  row.state == .active && row.leaseID == some leaseID

/-- Whether the row's unique-key claim has lapsed. -/
def Row.claimLapsed (row : Row) (now : Time) : Bool :=
  row.uniqueExpiresAt.any fun expiresAt => decide (expiresAt ≤ now)

/-- Whether the row's pre-dispatch expiry has passed. -/
def Row.isExpired (row : Row) (now : Time) : Bool :=
  row.expiresAt.any fun expiresAt => decide (expiresAt ≤ now)

/-- The columns a claim sets. -/
def Row.claimed (row : Row) (leaseID : String) (now expiresAt : Time) : Row :=
  { row with
    state := .active, leaseID := some leaseID, leaseExpiresAt := some expiresAt
    startedAt := some now, progress := 0, progressMessage := "" }

/-- The columns the reaper sets: an exhausted task is archived, another one retries. -/
def Row.reaped (row : Row) (now : Time) (message : String) : Row :=
  let exhausted := row.retried ≥ row.maxRetry
  { row with
    state := if exhausted then .archived else .retry
    retried := if exhausted then row.retried else row.retried + 1
    processAt := if exhausted then row.processAt else now
    completedAt := if exhausted then some now else row.completedAt
    lastError := message, leaseID := none, leaseExpiresAt := none }

namespace Database

/-- The rows that satisfy a condition, sorted, limited, and locked for update. -/
def selectForUpdate (db : Database) (scan : Scan) (limit : Int) (cond : String → Row → Bool)
    (orderBy : String × Row → String × Row → Int) : List String :=
  let unlocked := (scan.order.visit db.tasks).filter fun id => !scan.locked id
  let rows := unlocked.filterMap fun id =>
    ((db.tasks.lookup id).filter (cond id)).map fun row => (id, row)
  ((sortFunc orderBy rows).take limit.toNat).map Prod.fst

/-- The due rows of a queue that a lease claims, in dispatch order. -/
def dueRows (db : Database) (scan : Scan) (queue : String) (limit : Int) (now : Time) : List String :=
  db.selectForUpdate scan limit
    (fun _ row => row.queue == queue && dispatchable row.state && decide (row.processAt ≤ now) &&
      !row.isExpired now)
    fun a b =>
      if a.2.priority ≠ b.2.priority then compareBy b.2.priority a.2.priority
      else if a.2.processAt ≠ b.2.processAt then compareBy a.2.processAt b.2.processAt
      else compareBy a.1 b.1

/-- The aggregating members of a group that a group lease claims, in commit order. -/
def groupRows (db : Database) (scan : Scan) (queue group : String) (limit : Int) : List String :=
  db.selectForUpdate scan limit
    (fun _ row => row.queue == queue && row.groupKey == group && row.state == .aggregating)
    fun a b =>
      if a.2.enqueuedAt ≠ b.2.enqueuedAt then compareBy a.2.enqueuedAt b.2.enqueuedAt
      else compareBy a.1 b.1

/-- Whether a task still holds an edge. -/
def waits (db : Database) (taskID : String) : Bool :=
  db.deps.any fun edge => edge.dependentID == taskID

/-- Whether an edge waits on a task. -/
def hasDependents (db : Database) (taskID : String) : Bool :=
  db.deps.any fun edge => edge.dependencyID == taskID

/-- Whether the task is stored with a state that satisfies a condition. -/
def stateIs (db : Database) (taskID : String) (cond : TaskState → Bool) : Bool :=
  (db.tasks.lookup taskID).any fun row => cond row.state

/-- Whether the task exists and a dependent that is not terminal waits on it. -/
def hasWaitingDependents (db : Database) (taskID : String) : Bool :=
  db.deps.any fun edge =>
    edge.dependencyID == taskID && (db.tasks.lookup taskID).isSome &&
      db.stateIs edge.dependentID fun state => !terminal state

end Database

/-- The effect of a statement on the tables. -/
inductive Statement where
  | insertTask (id : String) (row : Row)
  | insertEdge (edge : Edge)
  | update (cond : Database → String → Row → Bool) (set : Row → Row)
  | delete (cond : Database → String → Row → Bool)
  | deleteEdges (cond : Database → Edge → Bool)

/-- The tables after a statement. Insertions do nothing on a primary-key conflict. -/
def Statement.effect (statement : Statement) (db : Database) : Database :=
  match statement with
  | .insertTask id row =>
    if id ∈ db.tasks then db else { db with tasks := db.tasks.insert id row }
  | .insertEdge edge =>
    if db.deps.any fun e => e.dependentID == edge.dependentID && e.dependencyID == edge.dependencyID
    then db
    else { db with deps := db.deps ++ [edge] }
  | .update cond set =>
    { db with tasks := GoMap.mapValues (fun id row => if cond db id row then set row else row) db.tasks }
  | .delete cond =>
    { db with tasks := GoMap.filterEntries (fun id row => !cond db id row) db.tasks }
  | .deleteEdges cond => { db with deps := db.deps.filter fun edge => !cond db edge }

/-- The statements the broker issues, with their parameters. -/
inductive Query where
  | insertTask (id : String) (row : Row)
  | releaseLapsedUnique (key : String) (now : Time)
  | insertEdge (edge : Edge)
  | dropSatisfiedEdges (dependencyID : String) (dependentIDs : List String)
  | dropDependentEdges (dependentID : String)
  | lease (queue : String) (limit : Int) (leaseID : String) (now expiresAt : Time) (scan : Scan)
  | reap (limit : Int) (now : Time) (message : String) (scan : Scan)
  | promote (limit : Int) (now : Time) (scan : Scan)
  | extendLease (taskID leaseID : String) (expiresAt : Time)
  | setProgress (taskID leaseID : String) (progress : UInt32) (message : String)
  | ack (taskID leaseID : String) (now : Time)
  | ackBatch (now : Time) (items : List AckItem)
  | fail (taskID leaseID message : String) (processAt : Time)
  | release (taskID leaseID : String) (now : Time)
  | archiveLeased (taskID leaseID message : String) (now : Time)
  | archiveAny (taskID message : String) (now : Time)
  | cancelTask (taskID : String) (now : Time)
  | deleteTask (taskID : String)
  | runTaskNow (taskID : String) (now : Time)
  | reschedule (taskID : String) (processAt : Time) (state : TaskState)
  | archiveWaiting (taskID : String) (now : Time)
  | releaseAllLapsed (now : Time)
  | dropTerminalDependentEdges
  | purgeCompleted (now : Time) (limit : Int) (scan : Scan)
  | purgeArchived (cutoff : Time) (limit : Int) (scan : Scan)
  | archiveExpired (now : Time) (limit : Int) (message : String) (scan : Scan)
  | stampCanceled (taskID : String) (now : Time)
  | cascadeCancel (taskID : String) (now : Time) (message : String)
  | promoteDependent (taskID : String) (now : Time)
  | promoteOrphanBlocked (limit : Int) (now : Time) (scan : Scan)
  | leaseGroup (queue group : String) (limit : Int) (leaseID : String) (now expiresAt : Time)
      (scan : Scan)

/-- An update of the one row with the given id, if it satisfies the condition. -/
def updateTask (taskID : String) (cond : Row → Bool) (set : Row → Row) : Statement :=
  .update (fun _ id row => id == taskID && cond row) set

/-- The SQL of a query. -/
def Query.statement : Query → Statement
  | .insertTask id row => .insertTask id row
  | .releaseLapsedUnique key now =>
    .update (fun _ _ row => row.uniqueKey == some key && row.claimLapsed now)
      fun row => { row with uniqueKey := none, uniqueExpiresAt := none }
  | .insertEdge edge => .insertEdge edge
  | .dropSatisfiedEdges dependencyID dependentIDs =>
    .deleteEdges fun _ edge =>
      edge.dependencyID == dependencyID && decide (edge.dependentID ∈ dependentIDs)
  | .dropDependentEdges dependentID => .deleteEdges fun _ edge => edge.dependentID == dependentID
  | .lease queue limit leaseID now expiresAt scan =>
    .update (fun db id _ => decide (id ∈ db.dueRows scan queue limit now))
      fun row => row.claimed leaseID now expiresAt
  | .reap limit now message scan =>
    .update
      (fun db id _ => decide (id ∈ db.selectForUpdate scan limit
        (fun _ row => row.state == .active &&
          row.leaseExpiresAt.any fun expiresAt => decide (expiresAt ≤ now))
        fun a b => compareNullable a.2.leaseExpiresAt b.2.leaseExpiresAt))
      fun row => row.reaped now message
  | .promote limit now scan =>
    .update
      (fun db id _ => decide (id ∈ db.selectForUpdate scan limit
        (fun _ row => row.state == .scheduled && decide (row.processAt ≤ now))
        fun a b => compareBy a.2.processAt b.2.processAt))
      fun row => { row with state := .pending }
  | .extendLease taskID leaseID expiresAt =>
    updateTask taskID (·.activeUnder leaseID) fun row => { row with leaseExpiresAt := some expiresAt }
  | .setProgress taskID leaseID progress message =>
    updateTask taskID (·.activeUnder leaseID)
      fun row => { row with progress := progress, progressMessage := message }
  | .ack taskID leaseID now =>
    updateTask taskID (·.activeUnder leaseID) fun row =>
      { row with state := .completed, completedAt := some now, leaseID := none, leaseExpiresAt := none }
  | .ackBatch now items =>
    .update (fun _ id row => items.any fun item => item.taskID == id && row.activeUnder item.leaseID)
      fun row =>
        { row with state := .completed, completedAt := some now, leaseID := none, leaseExpiresAt := none }
  | .fail taskID leaseID message processAt =>
    updateTask taskID (·.activeUnder leaseID) fun row =>
      { row with
        state := .retry, retried := row.retried + 1, lastError := message, processAt := processAt
        leaseID := none, leaseExpiresAt := none }
  | .release taskID leaseID now =>
    updateTask taskID (·.activeUnder leaseID) fun row =>
      { row with state := .pending, processAt := now, leaseID := none, leaseExpiresAt := none }
  | .archiveLeased taskID leaseID message now =>
    updateTask taskID (·.activeUnder leaseID) fun row =>
      { row with
        state := .archived, lastError := message, completedAt := some now
        leaseID := none, leaseExpiresAt := none }
  | .archiveAny taskID message now =>
    updateTask taskID (fun row => row.state != .completed) fun row =>
      { row with
        state := .archived, lastError := message, completedAt := some now
        leaseID := none, leaseExpiresAt := none }
  | .cancelTask taskID now =>
    updateTask taskID
      (fun row => row.state ∈ [.scheduled, .pending, .retry, .aggregating, .blocked])
      fun row => { row with state := .canceled, completedAt := some now }
  | .deleteTask taskID => .delete fun _ id row => id == taskID && row.state != .active
  | .runTaskNow taskID now =>
    updateTask taskID (fun row => row.state ∈ [.scheduled, .pending, .retry, .archived])
      fun row => { row with state := .pending, processAt := now, completedAt := none }
  | .reschedule taskID processAt state =>
    updateTask taskID (fun row => row.state ∈ [.scheduled, .pending, .retry])
      fun row => { row with state := state, processAt := processAt }
  | .archiveWaiting taskID now =>
    updateTask taskID (fun row => row.state ∈ [.scheduled, .pending, .retry, .blocked])
      fun row => { row with state := .archived, completedAt := some now }
  | .releaseAllLapsed now =>
    .update (fun _ _ row => row.uniqueKey.isSome && row.claimLapsed now)
      fun row => { row with uniqueKey := none, uniqueExpiresAt := none }
  | .dropTerminalDependentEdges =>
    .deleteEdges fun db edge => !db.stateIs edge.dependentID fun state => !terminal state
  | .purgeCompleted now limit scan =>
    .delete fun db id _ => decide (id ∈ db.selectForUpdate scan limit
      (fun id row => row.state == .completed &&
        (row.completedAt.any fun completedAt => decide (completedAt + row.retention ≤ now)) &&
        !db.hasDependents id)
      fun a b => compareNullable a.2.completedAt b.2.completedAt)
  | .purgeArchived cutoff limit scan =>
    .delete fun db id _ => decide (id ∈ db.selectForUpdate scan limit
      (fun id row => decide (row.state ∈ [.archived, .canceled]) &&
        (row.completedAt.any fun completedAt => decide (completedAt ≤ cutoff)) &&
        !db.hasDependents id)
      fun a b => compareNullable a.2.completedAt b.2.completedAt)
  | .archiveExpired now limit message scan =>
    .update
      (fun db id _ => decide (id ∈ db.selectForUpdate scan limit
        (fun _ row => decide (row.state ∈ [.scheduled, .pending, .retry, .blocked]) &&
          row.isExpired now)
        fun a b => compareNullable a.2.expiresAt b.2.expiresAt))
      fun row =>
        { row with
          state := .archived, lastError := message, completedAt := some now
          leaseID := none, leaseExpiresAt := none }
  | .stampCanceled taskID now =>
    updateTask taskID (·.state == .canceled) fun row => { row with completedAt := some now }
  | .cascadeCancel taskID now message =>
    updateTask taskID (·.state == .blocked) fun row =>
      { row with state := .canceled, completedAt := some now, lastError := message }
  | .promoteDependent taskID now =>
    .update (fun db id row => id == taskID && row.state == .blocked && !db.waits id)
      fun row => { row with state := unblockedState row now }
  | .promoteOrphanBlocked limit now scan =>
    .update
      (fun db id _ => decide (id ∈ db.selectForUpdate scan limit
        (fun id row => row.state == .blocked && !db.waits id) fun _ _ => 0))
      fun row => { row with state := unblockedState row now }
  | .leaseGroup queue group limit leaseID now expiresAt scan =>
    .update (fun db id _ => decide (id ∈ db.groupRows scan queue group limit))
      fun row => row.claimed leaseID now expiresAt

/-- The task rows an update or a deletion touches. -/
def Query.affected (query : Query) (db : Database) : List String :=
  match query.statement with
  | .update cond _ | .delete cond =>
    (db.tasks.entries.filter fun entry => cond db entry.1 entry.2).map Sigma.fst
  | _ => []

/-- The statements that move an already stored task between states. -/
def Query.moves : Query → Bool
  | .lease .. | .leaseGroup .. | .reap .. | .promote .. | .promoteDependent ..
  | .promoteOrphanBlocked .. | .release .. | .fail .. | .runTaskNow .. | .reschedule .. => true
  | _ => false

/-- The states the partial unique index covers. -/
def indexed (state : TaskState) : Bool :=
  state == .scheduled || state == .pending || state == .active || state == .retry

/-- The key under which a row stands in the partial unique index. -/
def Row.indexKey (row : Row) : Option String := if indexed row.state then row.uniqueKey else none

/-- The keys in the partial unique index. -/
def Database.indexKeys (db : Database) : List String :=
  db.tasks.entries.filterMap fun entry => entry.2.indexKey

instance : Statements Database Query where
  effect query db := query.statement.effect db
  violates db := !decide db.indexKeys.Nodup

end Conveyor.Postgres
