import Conveyor.Postgres.Resolver

/-!
# The operations that meet at a dependency, as transactions among others

The statements of an enqueue transaction, `Ack`, `ResolveDependents`, `PurgeTerminal`, `DeleteTask` and
`PromoteReadyDependents`, in the order the broker issues them. An operation without a transaction of its own
commits after each statement. A statement that reads evaluates its query on the tables it sees.
-/

namespace Conveyor.Postgres.Concurrent

open Lib Lib.ReadCommitted

/-- The tables as a statement sees them. -/
def Rows.database (ids : TaskIDs) (rows : Rows) : Database where
  tasks := (ids.list.filterMap fun id => (rows.task id).map (Sigma.mk id)).toAList
  deps := ids.list.flatMap fun dependentID => ids.list.filterMap fun dependencyID =>
    (rows.edge dependentID dependencyID).map fun onFailure => ⟨dependentID, dependencyID, onFailure⟩

section Statements

/-- An update of the task rows that satisfy a condition, which may look at the tables. -/
def updateTasks (cond : Rows → String → Row → Bool) (set : Row → Row) : Write Key Content where
  targets rows k :=
    match k, rows k with
    | .task id, some (.task row) => cond rows id row
    | _, _ => false
  change rows k latest :=
    match k, latest with
    | .task id, some (.task row) => if cond rows id row then some (some (.task (set row))) else none
    | _, _ => none

/-- A deletion of the task rows that satisfy a condition, which may look at the tables. -/
def deleteTasks (cond : Rows → String → Row → Bool) : Write Key Content where
  targets rows k :=
    match k, rows k with
    | .task id, some (.task row) => cond rows id row
    | _, _ => false
  change rows k latest :=
    match k, latest with
    | .task id, some (.task row) => if cond rows id row then some none else none
    | _, _ => none

/-- A deletion of edge rows whose condition may look at the tables. -/
def deleteEdgesWhere (cond : Rows → String → String → Bool) : Write Key Content where
  targets rows k :=
    match k, rows k with
    | .edge dependentID dependencyID, some (.edge _) => cond rows dependentID dependencyID
    | _, _ => false
  change rows k latest :=
    match k, latest with
    | .edge dependentID dependencyID, some (.edge _) =>
      if cond rows dependentID dependencyID then some none else none
    | _, _ => none

/-- Free a lapsed claim on a unique key. -/
def releaseLapsedUniqueQuery (key : String) (now : Time) : Write Key Content :=
  updateTasks (fun _ _ row => row.uniqueKey == some key && row.claimLapsed now) fun row =>
    { row with uniqueKey := none, uniqueExpiresAt := none }

def stampCanceledQuery (taskID : String) (now : Time) : Write Key Content :=
  updateTask taskID (fun _ row => row.state == .canceled) fun row => { row with completedAt := some now }

def ackQuery (taskID leaseID : String) (now : Time) : Write Key Content :=
  updateTask taskID (fun _ row => row.activeUnder leaseID) fun row =>
    { row with state := .completed, completedAt := some now, leaseID := none, leaseExpiresAt := none }

/-- Free every lapsed claim on a unique key. -/
def releaseAllLapsed (now : Time) : Write Key Content :=
  updateTasks (fun _ _ row => row.uniqueKey.isSome && row.claimLapsed now) fun row =>
    { row with uniqueKey := none, uniqueExpiresAt := none }

/-- Drop the edges whose dependent is terminal or gone. -/
def dropTerminalDependentEdgesQuery (ids : TaskIDs) : Write Key Content :=
  deleteEdgesWhere fun rows dependentID _ =>
    !(rows.database ids).stateIs dependentID fun state => !terminal state

/-- Delete completed tasks past their retention that no edge waits on. -/
def purgeCompletedQuery (ids : TaskIDs) (now : Time) : Write Key Content :=
  { deleteTasks fun rows id row => row.state == .completed &&
      (row.completedAt.any fun completedAt => decide (completedAt + row.retention ≤ now)) &&
      !(rows.database ids).hasDependents id with
    limited := true }

/-- Delete dead-lettered and canceled tasks that ended before the cutoff and that no edge waits on. -/
def purgeArchivedQuery (ids : TaskIDs) (cutoff : Time) : Write Key Content :=
  { deleteTasks fun rows id row => decide (row.state ∈ [.archived, .canceled]) &&
      (row.completedAt.any fun completedAt => decide (completedAt ≤ cutoff)) &&
      !(rows.database ids).hasDependents id with
    limited := true }

def deleteTaskQuery (taskID : String) : Write Key Content :=
  deleteTasks fun _ id row => id == taskID && row.state != .active

/-- Promote blocked tasks that hold no edges. -/
def promoteOrphanBlockedQuery (ids : TaskIDs) (now : Time) : Write Key Content :=
  { updateTasks (fun rows id row => row.state == .blocked && !(rows.database ids).waits id) fun row =>
      { row with state := unblockedState row now } with
    limited := true }

end Statements

section Enqueue

/-- Where an enqueue transaction stands. `rest` are the tasks it has yet to commit, `deps` the edges of the
current one. -/
inductive EnqueuePoint where
  | releaseLapsed (key : String) (prepared : PreparedEnqueue) (rest : List PreparedEnqueue)
  | dependencyStates (prepared : PreparedEnqueue) (rest : List PreparedEnqueue)
  | insertTask (prepared : PreparedEnqueue) (row : Row) (deps : List (String × Int16)) (state : TaskState)
      (rest : List PreparedEnqueue)
  | stampCanceled (prepared : PreparedEnqueue) (deps : List (String × Int16)) (rest : List PreparedEnqueue)
  | insertEdge (taskID depID : String) (policy : Int16) (deps : List (String × Int16))
      (rest : List PreparedEnqueue)
  | commit
  | failed
  | finished

/-- The next task of the transaction. -/
def EnqueuePoint.next : List PreparedEnqueue → EnqueuePoint
  | [] => .commit
  | prepared :: rest =>
    match prepared.uniqueKey with
    | some key => .releaseLapsed key prepared rest
    | none => .dependencyStates prepared rest

/-- The next edge of the current task. -/
def EnqueuePoint.insertEach (taskID : String) (rest : List PreparedEnqueue) :
    List (String × Int16) → EnqueuePoint
  | [] => .next rest
  | (depID, policy) :: deps => .insertEdge taskID depID policy deps rest

/-- The enqueue transaction: `enqueueOneTx` for each task. A unique violation rolls it back, and a task whose
values do not fit their columns leaves it nothing but to be rolled back. -/
def enqueueTx (ids : TaskIDs) (order : Nat → EnqueueOrder) :
    EnqueuePoint → ReadCommitted.Statement Key Content EnqueuePoint
  | .releaseLapsed key prepared rest =>
    .write (releaseLapsedUniqueQuery key prepared.now) fun _ => .dependencyStates prepared rest
  | .dependencyStates prepared rest =>
    .read fun rows =>
      let order := order rest.length
      let resolved := (Rows.database ids rows).resolveInitialDeps order.policies prepared.task.id prepared.edges
      let deps := (order.edges.visit resolved.1).map fun depID => (depID, (resolved.1.lookup depID).getD 0)
      let state := if resolved.2 then .canceled else if deps ≠ [] then .blocked else prepared.state
      (prepared.buildArguments state).elim .failed fun row => .insertTask prepared row deps state rest
  | .insertTask prepared row deps state rest =>
    .insert (.task prepared.task.id) (.task row) fun inserted =>
      if !inserted then .next rest
      else if state = .canceled then .stampCanceled prepared deps rest
      else .insertEach prepared.task.id rest deps
  | .stampCanceled prepared deps rest =>
    .write (stampCanceledQuery prepared.task.id prepared.now) fun _ => .insertEach prepared.task.id rest deps
  | .insertEdge taskID depID policy deps rest =>
    .insert (.edge taskID depID) (.edge policy) fun _ => .insertEach taskID rest deps
  | .commit => .commit .finished
  | .failed | .finished => .finished

end Enqueue

/-- Where `Ack` stands. -/
inductive AckPoint where
  | update
  | updated (found : Bool)
  | finished (error : Option BrokerError)

def ack (taskID leaseID : String) (now : Time) : AckPoint → ReadCommitted.Statement Key Content AckPoint
  | .update => .write (ackQuery taskID leaseID now) fun affected => .updated (!affected.isEmpty)
  | .updated found => .commit (.finished (if found then none else some .leaseLost))
  | .finished _ => .finished

/-- The statements of `PurgeTerminal`. -/
inductive PurgeStatement where
  | releaseAllLapsed
  | dropTerminalDependentEdges
  | purgeCompleted
  | purgeArchived

/-- Where `PurgeTerminal` stands: at a statement, or at its commit. -/
inductive PurgePoint where
  | issue (statement : PurgeStatement) (purged : Nat)
  | issued (statement : PurgeStatement) (purged : Nat)
  | finished (purged : Nat)

def PurgeStatement.query (ids : TaskIDs) (now : Time) (archiveRetention : Duration) :
    PurgeStatement → Write Key Content
  | .releaseAllLapsed => Concurrent.releaseAllLapsed now
  | .dropTerminalDependentEdges => dropTerminalDependentEdgesQuery ids
  | .purgeCompleted => purgeCompletedQuery ids now
  | .purgeArchived => purgeArchivedQuery ids (now - archiveRetention)

/-- How many of the affected rows a statement adds to the result. -/
def PurgeStatement.counts (affected : Nat) : PurgeStatement → Nat
  | .releaseAllLapsed | .dropTerminalDependentEdges => 0
  | .purgeCompleted | .purgeArchived => affected

/-- The statement after a statement. A retention that is not positive keeps dead-lettered and canceled rows. -/
def PurgeStatement.next (archiveRetention : Duration) (purged : Nat) : PurgeStatement → PurgePoint
  | .releaseAllLapsed => .issue .dropTerminalDependentEdges purged
  | .dropTerminalDependentEdges => .issue .purgeCompleted purged
  | .purgeCompleted => if archiveRetention ≤ 0 then .finished purged else .issue .purgeArchived purged
  | .purgeArchived => .finished purged

def purgeTerminal (ids : TaskIDs) (now : Time) (archiveRetention : Duration) :
    PurgePoint → ReadCommitted.Statement Key Content PurgePoint
  | .issue statement purged =>
    .write (statement.query ids now archiveRetention) fun affected =>
      .issued statement (purged + statement.counts affected.length)
  | .issued statement purged => .commit (statement.next archiveRetention purged)
  | .finished _ => .finished

/-- Where `DeleteTask` stands. -/
inductive DeletePoint where
  | hasWaitingDependents
  | delete
  | deleted (found : Bool)
  | explainMiss
  | dropEdges
  | droppedEdges
  | finished (error : Option BrokerError)

def deleteTask (ids : TaskIDs) (id : String) : DeletePoint → ReadCommitted.Statement Key Content DeletePoint
  | .hasWaitingDependents =>
    .read fun rows =>
      if (Rows.database ids rows).hasWaitingDependents id then .finished (some .taskHasDependents) else .delete
  | .delete => .write (deleteTaskQuery id) fun affected => .deleted (!affected.isEmpty)
  | .deleted found => .commit (if found then .dropEdges else .explainMiss)
  | .explainMiss =>
    .read fun rows =>
      .finished (if (Rows.task rows id).isSome then some .invalidState else some .taskNotFound)
  | .dropEdges => .write (dropDependentEdgesQuery id) fun _ => .droppedEdges
  | .droppedEdges => .commit (.finished none)
  | .finished _ => .finished

/-- Where `PromoteReadyDependents` stands. -/
inductive PromotePoint where
  | readyDependencies
  | within (point : Point)
  | promotedOrphans (frame : Frame)
  | finished (frame : Frame)

/-- The events and queues of promoted orphans. -/
def Frame.wakeOrphans (frame : Frame) (affected : List (Key × Option Content)) : Frame :=
  affected.foldl (fun frame entry => (frame.emit entry.1.dependent [entry]).wake [entry]) frame

def promoteReadyDependents (ids : TaskIDs) (now orphanNow : Time) (scan : Scan) (limit : Int) :
    PromotePoint → ReadCommitted.Statement Key Content PromotePoint
  | .readyDependencies =>
    .read fun rows =>
      .within (Point.continueWith { worklist := (Rows.database ids rows).readyDependencies scan limit })
  | .within point =>
    resolveWithin ids now .within
      (fun frame => .write (promoteOrphanBlockedQuery ids orphanNow) fun affected =>
        .promotedOrphans (frame.wakeOrphans affected)) point
  | .promotedOrphans frame => .commit (.finished frame)
  | .finished _ => .finished

/-- A call of the broker. -/
inductive Operation where
  | enqueue (order : Nat → EnqueueOrder) (tasks : List PreparedEnqueue)
  | ack (taskID leaseID : String) (now : Time)
  | resolveDependents (taskID : String) (now : Time)
  | purgeTerminal (now : Time) (archiveRetention : Duration) (limit : Int)
  | deleteTask (id : String)
  | promoteReadyDependents (now orphanNow : Time) (scan : Scan) (limit : Int)

/-- Where a call stands. -/
inductive CallPoint where
  | enqueue (point : EnqueuePoint)
  | ack (point : AckPoint)
  | resolve (point : ResolvePoint)
  | purge (point : PurgePoint)
  | delete (point : DeletePoint)
  | promote (point : PromotePoint)

/-- Where a call starts. A limit that is not positive ends a sweep at once. -/
def Operation.start : Operation → CallPoint
  | .enqueue _ tasks => .enqueue (.next tasks)
  | .ack .. => .ack .update
  | .resolveDependents .. => .resolve .hasDependents
  | .purgeTerminal _ _ limit => .purge (if limit ≤ 0 then .finished 0 else .issue .releaseAllLapsed 0)
  | .deleteTask _ => .delete .hasWaitingDependents
  | .promoteReadyDependents _ _ _ limit => .promote (if limit ≤ 0 then .finished {} else .readyDependencies)

/-- The program of a call. -/
def Operation.program (ids : TaskIDs) : Operation → CallPoint → ReadCommitted.Statement Key Content CallPoint
  | .enqueue order _, .enqueue point => (enqueueTx ids order point).map .enqueue
  | .ack taskID leaseID now, .ack point => (Concurrent.ack taskID leaseID now point).map .ack
  | .resolveDependents taskID now, .resolve point =>
    (Concurrent.resolveDependents ids now taskID point).map .resolve
  | .purgeTerminal now archiveRetention _, .purge point =>
    (Concurrent.purgeTerminal ids now archiveRetention point).map .purge
  | .deleteTask id, .delete point => (Concurrent.deleteTask ids id point).map .delete
  | .promoteReadyDependents now orphanNow scan limit, .promote point =>
    (Concurrent.promoteReadyDependents ids now orphanNow scan limit point).map .promote
  | _, _ => .finished

variable {I : Type}

/-- Any number of calls at once. -/
def operations (ids : TaskIDs) (ops : I → Operation) : ReadCommitted.System I Key Content CallPoint where
  keys := ids.keys
  program i := (ops i).program ids

/-- The calls before their first statement, over the committed rows. -/
def unstarted (base : Rows) (ops : I → Operation) : State I Key Content CallPoint where
  committed := base
  tx i := { point := (ops i).start }

end Conveyor.Postgres.Concurrent
