import Conveyor.Broker.Interface

/-!
# Payloads pass through

No operation looks at a payload. Replacing every payload of a store by a function of it therefore commutes with
every operation: the same happens, and the returned tasks carry the replaced payloads.
-/

namespace Conveyor

open Lib

variable (f : List UInt8 → List UInt8)

/-- The task with its payload replaced. -/
def TaskEnvelope.mapPayload (task : TaskEnvelope) : TaskEnvelope := { task with payload := f task.payload }

/-- The row with the payload of its envelope replaced. -/
def TaskRow.mapPayload (row : TaskRow) : TaskRow := { row with envelope := row.envelope.mapPayload f }

/-- The store with every payload replaced. -/
def Broker.mapPayload (b : Broker) : Broker :=
  { b with tasks := GoMap.mapValues (fun _ row => row.mapPayload f) b.tasks }

/-- The staged task with its payload replaced. -/
def StagedTask.mapPayload (staged : StagedTask) : StagedTask := { staged with row := staged.row.mapPayload f }

/-- The progress of a resolution with every payload replaced. -/
def Resolution.mapPayload (r : Resolution) : Resolution := { r with store := r.store.mapPayload f }

/-- The reply with the payloads of its tasks replaced. -/
def Reply.mapPayload : Reply → Reply
  | .leased tasks => .leased (tasks.map (TaskEnvelope.mapPayload f))
  | reply => reply

/-- The call with the payloads of its tasks replaced. -/
def Call.mapPayload : Call → Call
  | .enqueue task => .enqueue (task.mapPayload f)
  | .enqueueBatch tasks => .enqueueBatch (tasks.map (TaskEnvelope.mapPayload f))
  | call => call

/-- The change of a row does not read the payload. -/
def TaskRow.Carries (update : TaskRow → TaskRow) : Prop := ∀ row, update (row.mapPayload f) = (update row).mapPayload f

variable {f}

namespace Broker

variable (b : Broker)

/-- A row is stored under its id with its payload replaced. -/
@[simp] theorem mapPayload_lookup (id : String) :
    (b.mapPayload f).tasks.lookup id = (b.tasks.lookup id).map (TaskRow.mapPayload f) := GoMap.lookup_mapValues _ _ _

/-- The same ids are stored. -/
@[simp] theorem mapPayload_keys : (b.mapPayload f).tasks.keys = b.tasks.keys := GoMap.keys_mapValues _ _

/-- The ids are visited in the same order. -/
@[simp] theorem mapPayload_visit (order : MapOrder String) : order.visit (b.mapPayload f).tasks = order.visit b.tasks := by
  rw [MapOrder.visit, MapOrder.visit, mapPayload_keys]

/-- The same tasks are stored. -/
theorem mem_mapPayload (id : String) : id ∈ (b.mapPayload f).tasks ↔ id ∈ b.tasks := by
  rw [AList.mem_keys, AList.mem_keys, mapPayload_keys]

/-- The rows are listed in the same order. -/
theorem values_mapPayload (order : MapOrder String) :
    GoMap.values order (b.mapPayload f).tasks = (GoMap.values order b.tasks).map (TaskRow.mapPayload f) :=
  GoMap.values_mapValues _ _ _

/-- An event carries no payload. -/
theorem emit_mapPayload (old new : TaskState) (id : String) (row : TaskRow) (now : Time) :
    (b.mapPayload f).emit old new id (row.mapPayload f) now = (b.emit old new id row now).mapPayload f := by
  cases hevent : derive old new id row.envelope.queue row.envelope.type row.lastError row.retried now <;>
    simp only [emit, TaskRow.mapPayload, TaskEnvelope.mapPayload, hevent, mapPayload]

/-- A row is stored with its payload replaced. -/
theorem setRow_mapPayload (id : String) (row : TaskRow) :
    (b.mapPayload f).setRow id (row.mapPayload f) = (b.setRow id row).mapPayload f := by
  simp only [setRow, mapPayload, GoMap.mapValues_insert]

/-- A transition emits the same event. -/
theorem transition_mapPayload (id : String) (old new : TaskRow) (now : Time) :
    (b.mapPayload f).transition id (old.mapPayload f) (new.mapPayload f) now =
      (b.transition id old new now).mapPayload f := by
  rw [transition, setRow_mapPayload]
  exact emit_mapPayload _ _ _ _ _ _

/-- A row is removed with its payload. -/
theorem removeRow_mapPayload (id : String) :
    { b.mapPayload f with tasks := (b.mapPayload f).tasks.erase id } =
      ({ b with tasks := b.tasks.erase id } : Broker).mapPayload f := by
  simp only [mapPayload, GoMap.mapValues_erase]

/-- The reverse index holds no payload. -/
theorem removeDependent_mapPayload (d t : String) :
    (b.mapPayload f).removeDependent d t = (b.removeDependent d t).mapPayload f := by
  cases hwaiters : b.dependents.lookup d with
  | none => simp only [removeDependent, mapPayload, hwaiters]
  | some waiters =>
    simp only [removeDependent, mapPayload, hwaiters]
    split <;> rfl

/-- The same edges are unindexed. -/
theorem removeDependents_mapPayload (ds : List String) (t : String) :
    (b.mapPayload f).removeDependents ds t = (b.removeDependents ds t).mapPayload f :=
  List.foldl_hom _ fun b d => removeDependent_mapPayload b d t

/-- The lease guard does not read the payload. -/
theorem activeRow_mapPayload (taskID leaseID : String) :
    (b.mapPayload f).activeRow taskID leaseID = (b.activeRow taskID leaseID).map (TaskRow.mapPayload f) := by
  simp only [activeRow, mapPayload_lookup]
  cases b.tasks.lookup taskID with
  | none => rfl
  | some row =>
    simp only [Option.map_some, TaskRow.mapPayload]
    split <;> rfl

/-- The same tasks have dependents that wait. -/
theorem hasWaitingDependents_mapPayload (taskID : String) :
    (b.mapPayload f).hasWaitingDependents taskID = b.hasWaitingDependents taskID := by
  simp only [hasWaitingDependents, mapPayload_lookup]
  refine congrArg (List.any _) (funext fun dependentID => ?_)
  cases b.tasks.lookup dependentID <;> rfl

/-- The same keys are claimed. -/
theorem uniqueKeyClaimed_mapPayload (key : String) (now : Time) :
    (b.mapPayload f).uniqueKeyClaimed key now = b.uniqueKeyClaimed key now := by
  simp only [uniqueKeyClaimed, mapPayload, GoMap.mapValues, List.any_map]
  rfl

/-- The same dependencies are open. -/
theorem resolveInitialDepsFrom_mapPayload (taskID : String) (edges : List TaskDependency)
    (deps : GoMap String DependencyFailurePolicy) :
    (b.mapPayload f).resolveInitialDepsFrom taskID edges deps = b.resolveInitialDepsFrom taskID edges deps := by
  induction edges generalizing deps with
  | nil => rfl
  | cons edge rest ih =>
    simp only [resolveInitialDepsFrom, mapPayload_lookup, ih]
    cases b.tasks.lookup edge.taskId <;> rfl

/-- A task is staged with its payload replaced. -/
theorem stagedTask_mapPayload (task : TaskEnvelope) (now : Time) :
    (b.mapPayload f).stagedTask (task.mapPayload f) now = (b.stagedTask task now).mapPayload f := by
  simp only [stagedTask, resolveInitialDeps, resolveInitialDepsFrom_mapPayload]
  rfl

/-- A task is refused for the same reason, or staged with its payload replaced. -/
theorem stageEnqueue_mapPayload (task : TaskEnvelope) (now : Time) (batchIDs batchKeys : GoSet String) :
    (b.mapPayload f).stageEnqueue (task.mapPayload f) now batchIDs batchKeys =
      (b.stageEnqueue task now batchIDs batchKeys).map (Option.map (StagedTask.mapPayload f)) := by
  have hclaimed : ((task.mapPayload f).options.uniqueKey ≠ "" ∧
      ((b.mapPayload f).uniqueKeyClaimed (task.mapPayload f).options.uniqueKey now = true ∨
        (task.mapPayload f).options.uniqueKey ∈ batchKeys)) ↔
      (task.options.uniqueKey ≠ "" ∧
        (b.uniqueKeyClaimed task.options.uniqueKey now = true ∨ task.options.uniqueKey ∈ batchKeys)) := by
    rw [uniqueKeyClaimed_mapPayload]
    rfl
  simp only [stageEnqueue, apply_ite (Except.map (Option.map (StagedTask.mapPayload f)))]
  refine if_congr (b.mem_mapPayload task.id) rfl (if_congr .rfl rfl (if_congr hclaimed rfl
    (if_congr .rfl rfl ?_)))
  rw [stagedTask_mapPayload]
  rfl

/-- A staged task is stored with its payload replaced. -/
theorem applyStaged_mapPayload (staged : StagedTask) (now : Time) :
    (b.mapPayload f).applyStaged (staged.mapPayload f) now = (b.applyStaged staged now).mapPayload f := by
  have hlinked := @List.foldl_hom _ _ _ (mapPayload f) (fun b depID => b.addDependent depID staged.id)
    (fun b depID => b.addDependent depID staged.id) staged.row.deps.keys b fun _ _ => rfl
  simp only [applyStaged]
  rw [← emit_mapPayload, ← setRow_mapPayload, ← hlinked]
  rfl

/-- `Enqueue` does not read the payload. -/
theorem enqueue_mapPayload (now : Time) (task : TaskEnvelope) :
    (b.mapPayload f).enqueue now (task.mapPayload f) = (b.enqueue now task).map (mapPayload f) := by
  simp only [enqueue, stageEnqueue_mapPayload]
  cases b.stageEnqueue task now ∅ ∅ with
  | error cause => rfl
  | ok staged =>
    cases staged with
    | none => rfl
    | some staged => exact congrArg Except.ok (applyStaged_mapPayload b staged now)

/-- A batch is refused at the same task, or staged whole. -/
theorem stageBatch_mapPayload (now : Time) (tasks : List TaskEnvelope) (index : Nat) (batchIDs batchKeys : GoSet String) :
    (b.mapPayload f).stageBatch now (tasks.map (TaskEnvelope.mapPayload f)) index batchIDs batchKeys =
      (b.stageBatch now tasks index batchIDs batchKeys).map (List.map (StagedTask.mapPayload f)) := by
  induction tasks generalizing index batchIDs batchKeys with
  | nil => rfl
  | cons task rest ih =>
    simp only [List.map_cons, stageBatch, stageEnqueue_mapPayload]
    cases b.stageEnqueue task now batchIDs batchKeys with
    | error cause => rfl
    | ok staged =>
      cases staged with
      | none => exact ih (index + 1) batchIDs batchKeys
      | some entry =>
        simp only [Except.map, Option.map_some, StagedTask.mapPayload, TaskRow.mapPayload, ih]
        cases b.stageBatch now rest (index + 1) (batchIDs.insert entry.id ())
          (if entry.row.uniqueKey ≠ "" then batchKeys.insert entry.row.uniqueKey () else batchKeys) <;> rfl

/-- `EnqueueBatch` does not read the payloads. -/
theorem enqueueBatch_mapPayload (now : Time) (tasks : List TaskEnvelope) :
    (b.mapPayload f).enqueueBatch now (tasks.map (TaskEnvelope.mapPayload f)) =
      (b.enqueueBatch now tasks).map (mapPayload f) := by
  simp only [enqueueBatch, stageBatch_mapPayload]
  cases b.stageBatch now tasks 0 ∅ ∅ with
  | error cause => rfl
  | ok staged =>
    refine congrArg Except.ok (List.foldl_map.trans ?_)
    exact List.foldl_hom (mapPayload f) fun b entry => applyStaged_mapPayload b entry now

/-- A test that does not read the payload selects the same rows. -/
theorem rowsWhere_mapPayload (order : MapOrder String) {test : TaskRow → Bool}
    (htest : ∀ row, test (row.mapPayload f) = test row) :
    (b.mapPayload f).rowsWhere order test = (b.rowsWhere order test).map (Prod.map id (TaskRow.mapPayload f)) := by
  rw [rowsWhere, rowsWhere, mapPayload_visit, List.map_filterMap]
  refine List.filterMap_congr fun id _ => ?_
  rw [mapPayload_lookup]
  cases b.tasks.lookup id with
  | none => rfl
  | some row =>
    simp only [Option.map_some, htest]
    split <;> rfl

/-- The chosen rows are leased with their payloads. -/
theorem claim_mapPayload (now : Time) (ttl : Duration) (leaseID : String) (chosen : List (String × TaskRow)) :
    (b.mapPayload f).claim now ttl leaseID (chosen.map (Prod.map id (TaskRow.mapPayload f))) =
      (b.claim now ttl leaseID chosen).mapPayload f := by
  induction chosen generalizing b with
  | nil => rfl
  | cons entry rest ih =>
    have hfirst := b.transition_mapPayload (f := f) entry.1 entry.2 (entry.2.leased now ttl leaseID) now
    exact (congrArg (fun b => claim b now ttl leaseID (rest.map (Prod.map id (TaskRow.mapPayload f)))) hfirst).trans (ih _)

/-- A claim by a test and an order that do not read the payload hands out the same tasks. -/
theorem claimSorted_mapPayload (now : Time) (order : MapOrder String) (test : TaskRow → Bool)
    (cmp : TaskRow → TaskRow → Int) (limit : Int) (ttl : Duration) (leaseID : String)
    (htest : ∀ row, test (row.mapPayload f) = test row)
    (hcmp : ∀ row other, cmp (row.mapPayload f) (other.mapPayload f) = cmp row other) :
    (b.mapPayload f).claimSorted now order test cmp limit ttl leaseID =
      (b.claimSorted now order test cmp limit ttl leaseID).map (mapPayload f) (List.map (TaskEnvelope.mapPayload f)) := by
  have hsorted := @sortFunc_map _ _ (Prod.map id (TaskRow.mapPayload f)) (fun x y : String × TaskRow => cmp x.2 y.2)
    (fun x y => cmp x.2 y.2) (fun x y => hcmp x.2 y.2) (b.rowsWhere order test)
  simp only [claimSorted, rowsWhere_mapPayload b order htest, hsorted]
  split
  · rfl
  · rw [← List.map_take, claim_mapPayload, List.map_map]
    simp only [Prod.map, List.map_map]
    rfl

/-- A settlement that does not touch the payload. -/
theorem settle_mapPayload (now : Time) (taskID leaseID : String) (update : TaskRow → TaskRow)
    (hupdate : TaskRow.Carries f update) :
    (b.mapPayload f).settle now taskID leaseID update = (b.settle now taskID leaseID update).map (mapPayload f) := by
  rw [settle, settle, activeRow_mapPayload]
  cases b.activeRow taskID leaseID with
  | error cause => rfl
  | ok row =>
    simp only [Except.map, hupdate _, transition_mapPayload]

/-- The same acks of a batch succeed. -/
theorem ackBatch_mapPayload (now : Time) (items : List AckItem) :
    (b.mapPayload f).ackBatch now items = (b.ackBatch now items).map (mapPayload f) id := by
  induction items generalizing b with
  | nil => rfl
  | cons item rest ih =>
    have hack : (b.mapPayload f).ack now item.taskID item.leaseID =
        (b.ack now item.taskID item.leaseID).map (mapPayload f) := b.settle_mapPayload now _ _ _ fun _ => rfl
    rw [ackBatch, ackBatch, hack]
    cases b.ack now item.taskID item.leaseID with
    | error cause => exact ih b
    | ok b' =>
      simp only [Except.map, ih]
      rfl

/-- `Archive` keeps the payload. -/
theorem archive_mapPayload (now : Time) (taskID leaseID errMsg : String) :
    (b.mapPayload f).archive now taskID leaseID errMsg = (b.archive now taskID leaseID errMsg).map (mapPayload f) := by
  have hscoped := b.settle_mapPayload (f := f) now taskID leaseID (fun row => row.archivedWith errMsg now)
    fun _ => rfl
  rw [archive, archive, hscoped, mapPayload_lookup]
  split
  · rfl
  · cases b.tasks.lookup taskID with
    | none => rfl
    | some row =>
      have hmoved := b.transition_mapPayload (f := f) taskID row (row.archivedWith errMsg now) now
      simp only [Option.map_some]
      rw [apply_ite (Except.map (mapPayload f))]
      exact if_congr .rfl rfl (congrArg Except.ok hmoved)

/-- An operator's move of a task keeps its payload. -/
theorem moveTask_mapPayload (now : Time) (id : String) (allowed : TaskState → Bool) {update : TaskRow → TaskRow}
    (hupdate : TaskRow.Carries f update) :
    (b.mapPayload f).moveTask now id allowed update = (b.moveTask now id allowed update).map (mapPayload f) := by
  rw [moveTask, moveTask, mapPayload_lookup]
  cases b.tasks.lookup id with
  | none => rfl
  | some row =>
    simp only [Option.map_some, hupdate _, transition_mapPayload]
    rw [apply_ite (Except.map (mapPayload f))]
    rfl

/-- `DeleteTask` accepts the same tasks. -/
theorem deleteTask_mapPayload (id : String) :
    (b.mapPayload f).deleteTask id = (b.deleteTask id).map (mapPayload f) := by
  rw [deleteTask, deleteTask, mapPayload_lookup]
  cases b.tasks.lookup id with
  | none => rfl
  | some row =>
    have hunlinked := b.removeDependents_mapPayload (f := f) row.deps.keys id
    have hremoved := (b.removeDependents row.deps.keys id).removeRow_mapPayload (f := f) id
    simp only [Option.map_some, hasWaitingDependents_mapPayload, apply_ite (Except.map (mapPayload f))]
    refine if_congr .rfl rfl (if_congr .rfl rfl ?_)
    rw [show (row.mapPayload f).deps = row.deps from rfl, hunlinked, hremoved]
    rfl

/-- The same dependents are promoted, to the same queues. -/
theorem promoteIfReady_mapPayload (id : String) (row : TaskRow) (now : Time) :
    (b.mapPayload f).promoteIfReady id (row.mapPayload f) now =
      ((b.promoteIfReady id row now).1.mapPayload f, (b.promoteIfReady id row now).2) := by
  have hpromoted := b.transition_mapPayload (f := f) id row (row.promoted now) now
  by_cases hready : row.state ≠ .blocked ∨ row.deps.keys ≠ []
  · rw [promoteIfReady, promoteIfReady, if_pos hready]
    exact if_pos hready
  · rw [promoteIfReady, promoteIfReady, if_neg hready, ← hpromoted]
    exact if_neg hready

end Broker

namespace Resolution

/-- The woken queues do not depend on payloads. -/
theorem addQueue_mapPayload (r : Resolution) (queue : Option String) :
    (r.mapPayload f).addQueue queue = (r.addQueue queue).mapPayload f := by
  cases queue <;> rfl

/-- One edge is resolved in the same way. -/
theorem resolveEdge_mapPayload (order : ResolveOrder) (now : Time) (finishedID : String) (failed : Bool)
    (r : Resolution) (dependentID : String) :
    resolveEdge order now finishedID failed (r.mapPayload f) dependentID =
      (resolveEdge order now finishedID failed r dependentID).mapPayload f := by
  have hstale : { r.mapPayload f with store := (r.mapPayload f).store.removeDependent finishedID dependentID } =
      ({ r with store := r.store.removeDependent finishedID dependentID } : Resolution).mapPayload f := by
    simp only [mapPayload, Broker.removeDependent_mapPayload]
  cases hlookup : r.store.tasks.lookup dependentID with
  | none =>
    simp only [resolveEdge, hlookup, ← hstale]
    simp only [mapPayload, Broker.mapPayload_lookup, hlookup, Option.map_none]
  | some dependent =>
    cases hpolicy : dependent.deps.lookup finishedID with
    | none =>
      simp only [resolveEdge, hlookup, hpolicy, ← hstale]
      simp only [mapPayload, Broker.mapPayload_lookup, hlookup, Option.map_some, TaskRow.mapPayload, hpolicy]
    | some policy =>
      have hpolicy' : (dependent.mapPayload f).deps.lookup finishedID = some policy := hpolicy
      have hcanceled : ((r.store.mapPayload f).removeDependents
            ((order.edges dependentID).visit dependent.deps) dependentID).transition dependentID
            (dependent.mapPayload f) ((dependent.mapPayload f).cascaded now) now =
          ((r.store.removeDependents ((order.edges dependentID).visit dependent.deps) dependentID).transition dependentID
            dependent (dependent.cascaded now) now).mapPayload f := by
        rw [Broker.removeDependents_mapPayload]
        exact Broker.transition_mapPayload _ dependentID dependent (dependent.cascaded now) now
      have hsatisfied : ((r.store.mapPayload f).setRow dependentID ((dependent.mapPayload f).satisfied finishedID)).removeDependent
            finishedID dependentID =
          ((r.store.setRow dependentID (dependent.satisfied finishedID)).removeDependent finishedID dependentID).mapPayload f := by
        rw [← Broker.removeDependent_mapPayload, ← Broker.setRow_mapPayload]
        rfl
      simp only [resolveEdge, hlookup, hpolicy, apply_ite (mapPayload f), ← addQueue_mapPayload]
      simp only [mapPayload, Broker.mapPayload_lookup, hlookup, Option.map_some, hpolicy', hsatisfied]
      refine if_congr .rfl rfl (if_congr .rfl ?_ ?_)
      · exact congrArg (fun store => ({ r with store := store, worklist := r.worklist ++ [dependentID] } : Resolution)) hcanceled
      · exact congrArg (fun p => ({ r with store := p.1 } : Resolution).addQueue p.2)
          (Broker.promoteIfReady_mapPayload _ dependentID (dependent.satisfied finishedID) now)

/-- One finished task is resolved in the same way. -/
theorem resolveFinished_mapPayload (order : ResolveOrder) (now : Time) (finishedID : String) (r : Resolution) :
    (r.mapPayload f).resolveFinished order now finishedID = (r.resolveFinished order now finishedID).mapPayload f := by
  by_cases hseen : finishedID ∈ r.seen
  · rw [resolveFinished, resolveFinished, if_pos hseen]
    exact if_pos hseen
  · cases hlookup : r.store.tasks.lookup finishedID with
    | none =>
      simp only [resolveFinished, mapPayload, Broker.mapPayload_lookup, hlookup, hseen, Option.map_none, ↓reduceIte]
    | some finished =>
      have hsame := @List.foldl_hom _ _ _ (mapPayload f) _ _ ((order.waiters finishedID).visit (r.store.waiters finishedID))
        { r with seen := r.seen.insert finishedID () }
        (resolveEdge_mapPayload order now finishedID (failedDependency finished.state))
      simp only [resolveFinished, hlookup, hseen, apply_ite (mapPayload f), ↓reduceIte]
      simp only [mapPayload, Broker.mapPayload_lookup, hlookup, hseen, Option.map_some, ↓reduceIte]
      exact if_congr .rfl hsame rfl

/-- The worklist is drained in the same way. -/
theorem drain_mapPayload (order : ResolveOrder) (now : Time) (fuel : Nat) (r : Resolution) :
    (r.mapPayload f).drain order now fuel = (r.drain order now fuel).mapPayload f := by
  induction fuel generalizing r with
  | zero => rfl
  | succ fuel ih =>
    cases hwork : r.worklist with
    | nil => simp only [drain, mapPayload, hwork]
    | cons finishedID rest =>
      have hfirst := resolveFinished_mapPayload (f := f) order now finishedID { r with worklist := rest }
      simp only [drain, mapPayload, hwork]
      exact (congrArg (drain order now fuel) hfirst).trans (ih _)

end Resolution

namespace Broker

variable (b : Broker)

/-- `ResolveDependents` does not read the payloads. -/
theorem resolveDependents_mapPayload (order : ResolveOrder) (taskID : String) (now : Time) :
    (b.mapPayload f).resolveDependents order taskID now =
      (b.resolveDependents order taskID now).map (mapPayload f) id := by
  have hdrained := Resolution.drain_mapPayload (f := f) order now (b.tasks.keys.length + 1)
    { store := b, worklist := [taskID] }
  simp only [resolveDependents, mapPayload_keys]
  exact congrArg (fun r : Resolution => (r.store, order.queues.visit r.queues)) hdrained

/-- The same dependencies have finished. -/
theorem finishedDependencies_mapPayload : (b.mapPayload f).finishedDependencies = b.finishedDependencies := by
  simp only [finishedDependencies, mapPayload_keys, mapPayload_lookup]
  refine congrArg (fun step => List.foldl step ∅ b.tasks.keys) (funext fun finished => funext fun id => ?_)
  cases b.tasks.lookup id with
  | none => rfl
  | some row =>
    refine if_congr .rfl ?_ rfl
    refine congrArg (fun step => List.foldl step finished row.deps.keys) (funext fun finished => funext fun depID => ?_)
    cases b.tasks.lookup depID <;> rfl

/-- The first pass of the sweep does not read the payloads. -/
theorem resolveAll_mapPayload (order : String → ResolveOrder) (now : Time) (ids : List String) (queues : GoSet String) :
    resolveAll order now ids (b.mapPayload f, queues) = (resolveAll order now ids (b, queues)).map (mapPayload f) id := by
  induction ids generalizing b queues with
  | nil => rfl
  | cons depID rest ih =>
    simp only [resolveAll, resolveDependents_mapPayload]
    exact ih _ _

/-- The second pass of the sweep does not read the payloads. -/
theorem promoteAll_mapPayload (now : Time) (ids : List String) (queues : GoSet String) :
    promoteAll now ids (b.mapPayload f, queues) = (promoteAll now ids (b, queues)).map (mapPayload f) id := by
  induction ids generalizing b queues with
  | nil => rfl
  | cons id rest ih =>
    rw [promoteAll, promoteAll, mapPayload_lookup]
    cases b.tasks.lookup id with
    | none => exact ih b queues
    | some row =>
      simp only [Option.map_some, promoteIfReady_mapPayload]
      rcases b.promoteIfReady id row now with ⟨b', _ | queue⟩
      · exact ih b' queues
      · exact ih b' (queues.insert queue ())

/-- `PromoteReadyDependents` does not read the payloads. -/
theorem promoteReadyDependents_mapPayload (now : Time) (tasks finished queues : MapOrder String)
    (order : String → ResolveOrder) (limit : Int) :
    (b.mapPayload f).promoteReadyDependents now tasks finished queues order limit =
      (b.promoteReadyDependents now tasks finished queues order limit).map (mapPayload f) id := by
  rw [promoteReadyDependents, promoteReadyDependents, finishedDependencies_mapPayload]
  split
  · rfl
  · rw [resolveAll_mapPayload]
    obtain ⟨resolved, found⟩ := resolveAll order now ((finished.visit b.finishedDependencies).take limit.toNat) (b, ∅)
    have hpromoted := resolved.promoteAll_mapPayload (f := f) now (tasks.visit resolved.tasks) found
    simp only [Prod.map, mapPayload_visit, id_eq]
    exact congrArg (fun p : Broker × GoSet String => (p.1, queues.visit p.2)) hpromoted

/-- A bounded pass over rows moves the same rows. -/
theorem sweep_mapPayload (now : Time) {eligible : TaskRow → Bool} {update : TaskRow → TaskRow}
    (heligible : ∀ row, eligible (row.mapPayload f) = eligible row)
    (hupdate : TaskRow.Carries f update) (ids : List String) (left : Nat) :
    sweep now eligible update ids left (b.mapPayload f) =
      (sweep now eligible update ids left b).map (mapPayload f) (List.map (TaskRow.mapPayload f)) := by
  induction ids generalizing b left with
  | nil => rfl
  | cons id rest ih =>
    cases left with
    | zero => rfl
    | succ left =>
      rw [sweep, sweep, mapPayload_lookup]
      cases b.tasks.lookup id with
      | none => exact ih b (left + 1)
      | some row =>
        simp only [Option.map_some, heligible, hupdate _, transition_mapPayload, ih]
        split <;> rfl

/-- A bounded sweep over the store moves the same rows. -/
theorem sweepTasks_mapPayload (now : Time) (tasks : MapOrder String) (eligible : TaskRow → Bool)
    (update : TaskRow → TaskRow) (limit : Int) (heligible : ∀ row, eligible (row.mapPayload f) = eligible row)
    (hupdate : TaskRow.Carries f update) :
    (b.mapPayload f).sweepTasks now tasks eligible update limit =
      (b.sweepTasks now tasks eligible update limit).map (mapPayload f) (List.map (TaskRow.mapPayload f)) := by
  simp only [sweepTasks, mapPayload_visit, sweep_mapPayload b now heligible hupdate]
  split <;> rfl

/-- The rows name the same queues. -/
theorem queuesOf_mapPayload (queues : MapOrder String) (rows : List TaskRow) :
    queuesOf queues (rows.map (TaskRow.mapPayload f)) = queuesOf queues rows := by
  rw [queuesOf, queuesOf, List.foldl_map]
  rfl

/-- A reaped row keeps its payload. -/
theorem reaped_mapPayload (row : TaskRow) (now : Time) : (row.mapPayload f).reaped now = (row.reaped now).mapPayload f := by
  simp only [TaskRow.reaped, apply_ite (TaskRow.mapPayload f)]
  rfl

/-- `ReapExpiredLeases` does not read the payloads. -/
theorem reapExpiredLeases_mapPayload (now : Time) (tasks queues : MapOrder String) (limit : Int) :
    (b.mapPayload f).reapExpiredLeases now tasks queues limit =
      (b.reapExpiredLeases now tasks queues limit).map (mapPayload f) id := by
  have hswept := b.sweepTasks_mapPayload (f := f) now tasks (reapable now) (TaskRow.reaped · now) limit
    (fun _ => rfl) (fun row => reaped_mapPayload row now)
  simp only [reapExpiredLeases, hswept, Prod.map, List.filter_map]
  rw [queuesOf_mapPayload]
  rfl

/-- `PromoteScheduled` does not read the payloads. -/
theorem promoteScheduled_mapPayload (now : Time) (tasks queues : MapOrder String) (limit : Int) :
    (b.mapPayload f).promoteScheduled now tasks queues limit =
      (b.promoteScheduled now tasks queues limit).map (mapPayload f) id := by
  have hswept := b.sweepTasks_mapPayload (f := f) now tasks (promotable now) TaskRow.due limit
    (fun _ => rfl) (fun _ => rfl)
  simp only [promoteScheduled, hswept, Prod.map, queuesOf_mapPayload, id_eq]

/-- `ArchiveExpired` does not read the payloads. -/
theorem archiveExpired_mapPayload (now : Time) (tasks : MapOrder String) (limit : Int) :
    (b.mapPayload f).archiveExpired now tasks limit = (b.archiveExpired now tasks limit).map (mapPayload f) id := by
  have hswept := b.sweepTasks_mapPayload (f := f) now tasks (archivable now)
    (TaskRow.expiredOut · now) limit (fun _ => rfl) (fun _ => rfl)
  simp only [archiveExpired, hswept, Prod.map, List.length_map, id_eq]

/-- The same waiters of a dependency are dropped. -/
theorem dropStaleWaiters_mapPayload (dependencyID : String) (waiters : List String) :
    (b.mapPayload f).dropStaleWaiters dependencyID waiters = (b.dropStaleWaiters dependencyID waiters).mapPayload f := by
  induction waiters generalizing b with
  | nil => rfl
  | cons dependentID rest ih =>
    rw [dropStaleWaiters, dropStaleWaiters, mapPayload_lookup, removeDependent_mapPayload]
    cases b.tasks.lookup dependentID with
    | none => exact ih _
    | some dependent =>
      simp only [Option.map_some, ih, apply_ite (mapPayload f)]
      rfl

/-- The same edges of ended tasks are dropped. -/
theorem dropTerminalDependentEdges_mapPayload :
    (b.mapPayload f).dropTerminalDependentEdges = b.dropTerminalDependentEdges.mapPayload f :=
  List.foldl_hom _ fun b _ => dropStaleWaiters_mapPayload b _ _

/-- The same rows are purged. -/
theorem purge_mapPayload (now : Time) (archiveRetention : Duration) (limit : Nat) (ids : List String)
    (completed archived : Nat) :
    purge now archiveRetention limit ids completed archived (b.mapPayload f) =
      (purge now archiveRetention limit ids completed archived b).map (mapPayload f) id := by
  induction ids generalizing b completed archived with
  | nil => rfl
  | cons taskID rest ih =>
    rw [purge, purge, mapPayload_lookup]
    cases b.tasks.lookup taskID with
    | none => exact ih b completed archived
    | some stored =>
      have hrow : (if claimLapsed now (stored.mapPayload f) then (stored.mapPayload f).unclaimed else stored.mapPayload f) =
          (if claimLapsed now stored then stored.unclaimed else stored).mapPayload f := by
        rw [apply_ite (TaskRow.mapPayload f)]
        rfl
      have hstore : (if claimLapsed now (stored.mapPayload f) then
            (b.mapPayload f).setRow taskID (stored.mapPayload f).unclaimed else b.mapPayload f) =
          (if claimLapsed now stored then b.setRow taskID stored.unclaimed else b).mapPayload f := by
        rw [apply_ite (mapPayload f), ← setRow_mapPayload]
        rfl
      simp only [Option.map_some, hrow, hstore, removeRow_mapPayload, ih, apply_ite (Prod.map (mapPayload f) (@id Nat))]
      rfl

/-- `PurgeTerminal` does not read the payloads. -/
theorem purgeTerminal_mapPayload (now : Time) (tasks : MapOrder String) (archiveRetention : Duration) (limit : Int) :
    (b.mapPayload f).purgeTerminal now tasks archiveRetention limit =
      (b.purgeTerminal now tasks archiveRetention limit).map (mapPayload f) id := by
  simp only [purgeTerminal, dropTerminalDependentEdges_mapPayload, mapPayload_visit, purge_mapPayload]
  split <;> rfl

/-- A refused call leaves the store, with its payloads, as it was. -/
theorem outcome_mapPayload (result : Except BrokerError Broker) :
    (b.mapPayload f).outcome (result.map (mapPayload f)) = (b.outcome result).map (mapPayload f) (Reply.mapPayload f) := by
  cases result <;> rfl

/-- Every operation of the log does the same whatever the payloads are. -/
theorem exec_mapPayload (now : Time) (call : Call) (order : Iteration) :
    (b.mapPayload f).exec ⟨now, call.mapPayload f, order⟩ =
      (b.exec ⟨now, call, order⟩).map (mapPayload f) (Reply.mapPayload f) := by
  have hsettled (taskID leaseID : String) {update : TaskRow → TaskRow}
      (hupdate : TaskRow.Carries f update) :
      (b.mapPayload f).outcome ((b.mapPayload f).settle now taskID leaseID update) =
        (b.outcome (b.settle now taskID leaseID update)).map (mapPayload f) (Reply.mapPayload f) := by
    rw [b.settle_mapPayload now taskID leaseID update hupdate, outcome_mapPayload]
  have hmoved (id : String) (allowed : TaskState → Bool) {update : TaskRow → TaskRow}
      (hupdate : TaskRow.Carries f update) :
      (b.mapPayload f).outcome ((b.mapPayload f).moveTask now id allowed update) =
        (b.outcome (b.moveTask now id allowed update)).map (mapPayload f) (Reply.mapPayload f) := by
    rw [b.moveTask_mapPayload now id allowed hupdate, outcome_mapPayload]
  cases call with
  | enqueue task => simp only [exec, Call.mapPayload, enqueue_mapPayload, outcome_mapPayload]
  | enqueueBatch tasks => simp only [exec, Call.mapPayload, enqueueBatch_mapPayload, outcome_mapPayload]
  | lease queue limit ttl leaseID =>
    have hclaimed := b.claimSorted_mapPayload (f := f) now order.tasks (leasable queue now) compareDue
      limit ttl leaseID (fun _ => rfl) (fun _ _ => rfl)
    exact congrArg (Prod.map id Reply.leased) hclaimed
  | leaseGroup queue group limit ttl leaseID =>
    have hclaimed := b.claimSorted_mapPayload (f := f) now order.tasks (groupLeasable queue group)
      compareMembers limit ttl leaseID (fun _ => rfl) (fun _ _ => rfl)
    exact congrArg (Prod.map id Reply.leased) hclaimed
  | extendLease taskID leaseID ttl => exact hsettled taskID leaseID fun _ => rfl
  | setProgress taskID leaseID percent message => exact hsettled taskID leaseID fun _ => rfl
  | ack taskID leaseID => exact hsettled taskID leaseID fun _ => rfl
  | ackBatch items => exact congrArg (Prod.map id Reply.acked) (b.ackBatch_mapPayload now items)
  | fail taskID leaseID errMsg processAt => exact hsettled taskID leaseID fun _ => rfl
  | release taskID leaseID => exact hsettled taskID leaseID fun _ => rfl
  | archive => simp only [exec, Call.mapPayload, archive_mapPayload, outcome_mapPayload]
  | reapExpiredLeases limit =>
    exact congrArg (Prod.map id Reply.queues) (b.reapExpiredLeases_mapPayload now order.tasks order.queues limit)
  | promoteScheduled limit =>
    exact congrArg (Prod.map id Reply.queues) (b.promoteScheduled_mapPayload now order.tasks order.queues limit)
  | resolveDependents taskID =>
    exact congrArg (Prod.map id Reply.queues) (b.resolveDependents_mapPayload (order.resolve taskID) taskID now)
  | promoteReadyDependents limit =>
    exact congrArg (Prod.map id Reply.queues)
      (b.promoteReadyDependents_mapPayload now order.tasks order.finished order.queues order.resolve limit)
  | purgeTerminal archiveRetention limit =>
    exact congrArg (Prod.map id Reply.count) (b.purgeTerminal_mapPayload now order.tasks archiveRetention limit)
  | archiveExpired limit =>
    exact congrArg (Prod.map id Reply.count) (b.archiveExpired_mapPayload now order.tasks limit)
  | cancelTask id => exact hmoved id cancelable fun _ => rfl
  | deleteTask id => simp only [exec, Call.mapPayload, deleteTask_mapPayload, outcome_mapPayload]
  | runTaskNow id => exact hmoved id runnable fun _ => rfl
  | rescheduleTask id processAt => exact hmoved id reschedulable fun _ => rfl
  | archiveTask id => exact hmoved id deadLetterable fun _ => rfl
  | setQueuePaused queue paused => rfl
  | setQueueConcurrencyLimit => rfl
  | deleteQueueConcurrencyLimit queue => rfl

end Broker

end Conveyor
